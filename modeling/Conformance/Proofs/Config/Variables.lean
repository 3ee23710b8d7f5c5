import Conformance.Config
import Conformance.Proofs.Text.Blank
import Conformance.Proofs.Text.Numerals
import Conformance.Proofs.Text.Utf8

/-!
# Numbers in the environment

A variable holds a number if its value is a decimal numeral of a word of 64
bits, with blanks around it or without (`Numeric`). That can be computed
(`readNumber_eq_some`), so whether a variable is set to anything else can be
decided (`Unreadable`).

Reading the number of a variable has three outcomes (`VariableRead`), and
which one it is depends on the text in the variable alone. A value that is
no text is passed over: what is read is an environment without it
(`Environment.texts`).
-/

namespace Conformance

/-! ## Values -/

/-- A value is a number: decimal digits, maybe with a plus sign in front of
them and with blanks around, of a number that a word of 64 bits holds. -/
def Numeric (value : Bytes) (n : Nat) : Prop :=
  n < 2 ^ 64 ∧ ∃ before sign digits after : List Char,
    value = Utf8.encode (String.ofList (before ++ (sign ++ digits) ++ after))
      ∧ (∀ c ∈ before, Text.isBlank c = true) ∧ (∀ c ∈ after, Text.isBlank c = true)
      ∧ (sign = [] ∨ sign = ['+'])
      ∧ digits ≠ [] ∧ (∀ c ∈ digits, Digits.IsDigit 10 c) ∧ Digits.valueOf 10 digits = n

/-- The number of a value. -/
def readNumber (value : Bytes) : Option Nat :=
  (Utf8.decode? value).bind fun text => Digits.word64? (Text.trim text)

/-- The numerals of words: a sign, or none, and digits. -/
theorem word64?_eq_some {text : String} {n : Nat} :
    Digits.word64? text = some n ↔ n < 2 ^ 64 ∧ ∃ sign digits : List Char,
      text.toList = sign ++ digits ∧ (sign = [] ∨ sign = ['+'])
        ∧ digits ≠ [] ∧ (∀ c ∈ digits, Digits.IsDigit 10 c) ∧ Digits.valueOf 10 digits = n := by
  rw [Digits.word64?, Digits.unsigned?_eq_some (by decide)]
  simp only [Digits.natural?_eq_some (show 10 ≤ 10 by decide)]
  refine and_congr_right fun _ => ⟨?_, ?_⟩
  · rintro ⟨digits, heq | heq, h⟩
    · exact ⟨[], digits, heq, .inl rfl, h⟩
    · exact ⟨['+'], digits, heq, .inr rfl, h⟩
  · rintro ⟨sign, digits, heq, rfl | rfl, h⟩
    · exact ⟨digits, .inl heq, h⟩
    · exact ⟨digits, .inr heq, h⟩

theorem not_isBlank_of_isDigit {c : Char} (h : Digits.IsDigit 10 c) : Text.isBlank c = false := by
  obtain ⟨hzero, hnine⟩ := h
  have h0 : '0'.toNat = 48 := rfl
  rw [Digits.char_le_iff, h0] at hzero
  rw [h0] at hnine
  rw [← Bool.not_eq_true, Text.isBlank]
  simp only [Bool.or_eq_true, Bool.and_eq_true, decide_eq_true_eq]
  omega

/-- A numeral neither starts nor ends with a blank. -/
theorem numeral_ends {sign digits : List Char} (hsign : sign = [] ∨ sign = ['+'])
    (hne : digits ≠ []) (hdigits : ∀ c ∈ digits, Digits.IsDigit 10 c) :
    (∀ c, (sign ++ digits).head? = some c → Text.isBlank c = false)
      ∧ ∀ c, (sign ++ digits).getLast? = some c → Text.isBlank c = false := by
  constructor
  · intro c hc
    rcases hsign with rfl | rfl
    · exact not_isBlank_of_isDigit (hdigits c (List.mem_of_mem_head? hc))
    · obtain rfl := Option.some.inj hc
      decide
  · intro c hc
    rw [List.getLast?_append_of_ne_nil _ hne] at hc
    exact not_isBlank_of_isDigit (hdigits c (List.mem_of_getLast? hc))

/-- The number that is read is the one that the value is. -/
theorem readNumber_eq_some {value : Bytes} {n : Nat} :
    readNumber value = some n ↔ Numeric value n := by
  rw [readNumber, Option.bind_eq_some_iff]
  simp only [Utf8.decode?_eq_some, word64?_eq_some]
  constructor
  · rintro ⟨text, rfl, hn, sign, digits, htrim, hnumeral⟩
    obtain ⟨before, after, htext, hbefore, hafter⟩ := Text.exists_blanks text.toList
    rw [Text.trim, String.toList_ofList] at htrim
    rw [htrim] at htext
    refine ⟨hn, before, sign, digits, after, ?_, hbefore, hafter, hnumeral⟩
    rw [← htext, String.ofList_toList]
  · rintro ⟨hn, before, sign, digits, after, rfl, hbefore, hafter, hsign, hne, hdigits, hvalue⟩
    obtain ⟨hfirst, hlast⟩ := numeral_ends hsign hne hdigits
    refine ⟨_, rfl, hn, sign, digits, ?_, hsign, hne, hdigits, hvalue⟩
    rw [Text.trim, String.toList_ofList, String.toList_ofList,
      Text.trimChars_between hbefore hafter (List.append_ne_nil_of_right_ne_nil _ hne) hfirst hlast]

theorem Numeric.text {value : Bytes} {n : Nat} (h : Numeric value n) :
    ∃ text, value = Utf8.encode text := by
  obtain ⟨-, before, sign, digits, after, rfl, -⟩ := h
  exact ⟨_, rfl⟩

/-! ## Variables -/

namespace Environment

variable {env : Environment} {name : String}

/-- A variable is set to something that is no number. -/
def Unreadable (env : Environment) (name : String) : Prop :=
  ∃ value, env name = some value ∧ ∀ n, ¬ Numeric value n

theorem unreadable_iff :
    env.Unreadable name ↔ ((env name).any fun value => (readNumber value).isNone) = true := by
  simp [Unreadable, Option.any_eq_true, Option.eq_none_iff_forall_ne_some, readNumber_eq_some]

instance (env : Environment) (name : String) : Decidable (env.Unreadable name) :=
  decidable_of_iff _ unreadable_iff.symm

/-- A variable is set to a text. -/
def IsText (env : Environment) (name : String) : Prop :=
  ∃ text, env name = some (Utf8.encode text)

/-- The environment without the variables that are set to something that is
no text. -/
def texts (env : Environment) : Environment := fun name =>
  (env name).filter fun value => (Utf8.decode? value).isSome

theorem texts_eq_some {value : Bytes} :
    env.texts name = some value ↔ env name = some value ∧ ∃ text, value = Utf8.encode text := by
  rw [texts, Option.filter_eq_some_iff, Option.isSome_iff_exists]
  exact and_congr_right fun _ => exists_congr fun _ => Utf8.decode?_eq_some.trans eq_comm

theorem texts_eq_none : env.texts name = none ↔ ¬ ∃ text, env name = some (Utf8.encode text) := by
  rw [Option.eq_none_iff_forall_ne_some]
  constructor
  · rintro h ⟨text, htext⟩
    exact h _ (texts_eq_some.mpr ⟨htext, text, rfl⟩)
  · rintro h value hvalue
    obtain ⟨hset, text, rfl⟩ := texts_eq_some.mp hvalue
    exact h ⟨text, hset⟩

theorem unreadable_texts : env.texts.Unreadable name ↔ env.Unreadable name ∧ env.IsText name := by
  constructor
  · rintro ⟨value, hset, hno⟩
    obtain ⟨hset, text, rfl⟩ := texts_eq_some.mp hset
    exact ⟨⟨_, hset, hno⟩, text, hset⟩
  · rintro ⟨⟨value, hset, hno⟩, text, htext⟩
    obtain rfl := Option.some.inj (hset.symm.trans htext)
    exact ⟨_, texts_eq_some.mpr ⟨hset, text, rfl⟩, hno⟩

end Environment

/-! ## Reading a variable -/

/-- What reading the number of a variable comes to. -/
inductive VariableRead (env : Environment) (name : String) :
    Except ConfigFault (Option Nat) → Prop
  | unset (h : env name = none) : VariableRead env name (.ok none)
  | number {value : Bytes} {n : Nat} (hset : env name = some value) (h : Numeric value n) :
    VariableRead env name (.ok (some n))
  | unreadable {text : String} (hset : env name = some (Utf8.encode text))
    (h : ∀ n, ¬ Numeric (Utf8.encode text) n) :
    VariableRead env name (.error (.variable name text))

/-- The number of a variable is read as if a value that is no text were
none. -/
theorem variableNumber_read (env : Environment) (name : String) :
    VariableRead env.texts name (Config.variableNumber env name) := by
  unfold Config.variableNumber
  cases htext : (env name).bind Utf8.decode? with
  | none =>
      refine .unset (Environment.texts_eq_none.mpr ?_)
      rintro ⟨text, hset⟩
      rw [hset, Option.bind_some, Utf8.decode?_encode] at htext
      cases htext
  | some text =>
      obtain ⟨value, hset, hdecode⟩ := Option.bind_eq_some_iff.mp htext
      obtain rfl := Utf8.decode?_eq_some.mp hdecode
      have hset' : env.texts name = some (Utf8.encode text) :=
        Environment.texts_eq_some.mpr ⟨hset, text, rfl⟩
      have hread : readNumber (Utf8.encode text) = Digits.word64? (Text.trim text) := by
        rw [readNumber, hdecode, Option.bind_some]
      dsimp only
      rw [← hread]
      cases hn : readNumber (Utf8.encode text) with
      | some n => exact .number hset' (readNumber_eq_some.mp hn)
      | none =>
          refine .unreadable hset' fun n h => ?_
          rw [readNumber_eq_some.mpr h] at hn
          cases hn

end Conformance
