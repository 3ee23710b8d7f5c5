import Mathlib.Data.List.Basic
import Conformance.Json.Parser
import Conformance.Json.Printer
import Conformance.Proofs.Text.Digits

/-!
# Reading the text that was written

The text of a value reads as that value (`parse?_text`), if the value is
not nested too deeply and all its numbers are whole and fit into a word of
64 bits. The members of its objects may be any, in any order: they come
back as they were.

What is read of a value's text goes up to its end, whatever comes after it
there. For a number this needs that no digit follows and nothing that
would make it a fraction, so between values stand only a comma and the
brackets that close (`Closes`).
-/

namespace Conformance

/-- A whole number that a word of 64 bits holds. -/
def Number.IsWord : Number → Prop
  | .int i => -0x8000000000000000 ≤ i ∧ i < 0x10000000000000000
  | .float _ => False

namespace Json

mutual

/-- All numbers of the value are whole and fit into a word of 64 bits. -/
def IsExact : Json → Prop
  | .num n => n.IsWord
  | .arr vs => elementsExact vs
  | .obj ms => membersExact ms
  | _ => True

/-- All numbers of the elements are whole and fit into a word of 64 bits. -/
def elementsExact : List Json → Prop
  | [] => True
  | v :: r => IsExact v ∧ elementsExact r

/-- All numbers of the members are whole and fit into a word of 64 bits. -/
def membersExact : List (String × Json) → Prop
  | [] => True
  | (_, v) :: r => IsExact v ∧ membersExact r

end

mutual

/-- How many arrays and objects there are around the innermost value. -/
def levels : Json → Nat
  | .arr vs => elementLevels vs + 1
  | .obj ms => memberLevels ms + 1
  | _ => 0

/-- The levels of the deepest element. -/
def elementLevels : List Json → Nat
  | [] => 0
  | v :: r => max (levels v) (elementLevels r)

/-- The levels of the deepest member. -/
def memberLevels : List (String × Json) → Nat
  | [] => 0
  | (_, v) :: r => max (levels v) (memberLevels r)

end

theorem elementsExact_map {α : Type} {f : α → Json} (h : ∀ a, IsExact (f a)) :
    ∀ as : List α, elementsExact (as.map f)
  | [] => trivial
  | a :: r => ⟨h a, elementsExact_map h r⟩

theorem elementLevels_map_le {α : Type} {f : α → Json} {n : Nat} (h : ∀ a, levels (f a) ≤ n) :
    ∀ as : List α, elementLevels (as.map f) ≤ n
  | [] => Nat.zero_le n
  | a :: r => Nat.max_le.mpr ⟨h a, elementLevels_map_le h r⟩

/-- The text ends or goes on as it may after a value that stands in an array
or an object. -/
def Closes (rest : List Char) : Prop :=
  ∀ c, rest.head? = some c → c = ',' ∨ c = ']' ∨ c = '\x7d'

theorem closes_nil : Closes [] := by
  simp [Closes]

theorem closes_elementChars (vs : List Json) (rest : List Char) :
    Closes (elementChars vs ++ rest) := by
  cases vs <;> simp [Closes, elementChars]

theorem closes_memberChars (ms : List (String × Json)) (rest : List Char) :
    Closes (memberChars ms ++ rest) := by
  cases ms <;> simp [Closes, memberChars]

theorem skip_cons {c : Char} (h : isBlank c = false) (r : List Char) : skip (c :: r) = c :: r := by
  simp [skip, h]

/-! ## Strings -/

theorem unit?_controlDigits : ∀ n < 0x20,
    unit? '0' '0' (Nat.digitChar (n / 16)) (Nat.digitChar (n % 16)) = some n := by
  decide

theorem escape?_control {c : Char} (h : c.toNat < 0x20) (r : List Char) :
    escape? ('u' :: (controlDigits c.toNat ++ r)) = some (c, 5) := by
  simp only [controlDigits, List.cons_append, escape?, unit?_controlDigits _ h, bind, Option.bind]
  rw [if_pos (by simp; omega), Char.ofNat_toNat]
  rfl

theorem stringBody_escape {c : Char} {n : Nat} {r : List Char} (h : escape? r = some (c, n)) :
    stringBody ('\\' :: r) = (stringBody (r.drop n)).map fun p => (c :: p.1, p.2) := by
  rw [stringBody, if_neg (by decide), if_pos rfl, h]

theorem stringBody_letter {c e : Char} {r : List Char} (h : escape? (e :: r) = some (c, 1)) :
    stringBody (['\\', e] ++ r) = (stringBody r).map fun p => (c :: p.1, p.2) :=
  stringBody_escape h

/-- Reading takes one character, whether it was escaped or not. -/
theorem stringBody_escaped (c : Char) (r : List Char) :
    stringBody (escaped c ++ r) = (stringBody r).map fun p => (c :: p.1, p.2) := by
  have hcode {n : Nat} (h : c.toNat = n) : c = Char.ofNat n := by rw [← h, Char.ofNat_toNat]
  unfold escaped
  split
  case isTrue h =>
    refine stringBody_letter ?_
    simp [escape?, h]
  case isFalse hquote =>
    split
    case isTrue h =>
      refine stringBody_letter ?_
      simp [escape?, h]
    case isFalse hbackslash =>
      -- The control characters with a letter of their own.
      iterate 5
        split
        · rename_i h
          refine stringBody_letter ?_
          simp [escape?, hcode h]
      split
      case isTrue h => exact stringBody_escape (escape?_control h r)
      case isFalse h => rw [List.singleton_append, stringBody, if_neg hquote, if_neg hbackslash,
          if_neg h]

theorem stringBody_flatMap : ∀ (cs rest : List Char),
    stringBody (cs.flatMap escaped ++ '"' :: rest) = some (cs, rest)
  | [], rest => by simp [stringBody]
  | c :: cs, rest => by
      rw [List.flatMap_cons, List.append_assoc, stringBody_escaped, stringBody_flatMap cs rest]
      rfl

theorem stringBody_quoted (s : String) (rest : List Char) :
    stringBody (s.toList.flatMap escaped ++ ['"'] ++ rest) = some (s.toList, rest) := by
  rw [List.append_assoc]
  exact stringBody_flatMap s.toList rest

/-! ## Numbers -/

theorem digitRun_append {ds rest : List Char} (h : ∀ c ∈ ds, Digits.isDecimal c = true)
    (hrest : Closes rest) : digitRun (ds ++ rest) = (ds, rest) := by
  have hstop : rest.takeWhile Digits.isDecimal = [] ∧ rest.dropWhile Digits.isDecimal = rest := by
    cases rest with
    | nil => simp
    | cons c r => rcases hrest c rfl with rfl | rfl | rfl <;> simp [Digits.isDecimal]
  rw [digitRun, List.takeWhile_append_of_pos h, List.dropWhile_append_of_pos h, hstop.1, hstop.2,
    List.append_nil]

theorem fraction?_closes {rest : List Char} (h : Closes rest) :
    fraction? rest = some (none, rest) := by
  cases rest with
  | nil => rfl
  | cons c r => rcases h c rfl with rfl | rfl | rfl <;> rfl

theorem exponent?_closes {rest : List Char} (h : Closes rest) :
    exponent? rest = some (none, rest) := by
  cases rest with
  | nil => rfl
  | cons c r => rcases h c rfl with rfl | rfl | rfl <;> rfl

theorem magnitude?_toDigits (negative : Bool) (n : Nat) {rest : List Char} (h : Closes rest) :
    magnitude? negative (Nat.toDigits 10 n ++ rest) = some (wholeNumber negative n, rest) := by
  have hzero : ¬ ((Nat.toDigits 10 n).head? = some '0' && 1 < (Nat.toDigits 10 n).length) = true := by
    simp only [Bool.and_eq_true, decide_eq_true_eq, not_and]
    intro hhead
    have hlength := Digits.length_toDigits_of_zero hhead
    omega
  rw [magnitude?, digitRun_append (fun c => Digits.isDecimal_of_mem_toDigits) h]
  simp only [Digits.natural?_toDigits, bind, Option.bind, if_neg hzero, fraction?_closes h,
    exponent?_closes h]
  rfl

theorem number?_toDigits (n : Nat) (rest : List Char) :
    number? (Nat.toDigits 10 n ++ rest) = magnitude? false (Nat.toDigits 10 n ++ rest) := by
  obtain ⟨c, cs, hdigits, hc⟩ := Digits.toDigits_eq_cons n
  rw [hdigits, List.cons_append, number?]
  rintro _ ⟨⟩
  contradiction

theorem number?_numberText {n : Number} (hn : n.IsWord) {rest : List Char} (h : Closes rest) :
    number? (numberText n ++ rest) = some (n, rest) := by
  cases n with
  | float x => exact hn.elim
  | int i =>
      obtain ⟨hlow, hhigh⟩ := hn
      rw [numberText, Int.toString_eq_repr, Int.repr_eq_if]
      split
      case isTrue hnat =>
        obtain ⟨n, rfl⟩ := Int.eq_ofNat_of_zero_le hnat
        rw [Int.toNat_natCast, Nat.toList_repr, number?_toDigits, magnitude?_toDigits false _ h,
          wholeNumber, if_neg (by decide), if_pos (by omega)]
      case isFalse hneg =>
        have hback : -((-i).toNat : Int) = i := by omega
        rw [String.toList_append, Nat.toList_repr]
        show magnitude? true (Nat.toDigits 10 (-i).toNat ++ rest) = _
        rw [magnitude?_toDigits true _ h, wholeNumber, if_pos rfl, if_pos (by simp; omega), hback]

/-- A character that a number may start with. -/
def isNumeric (c : Char) : Bool := c = '-' || Digits.isDecimal c

theorem numberText_int_head (i : Int) :
    ∃ c r, numberText (.int i) = c :: r ∧ isNumeric c = true := by
  rw [numberText, Int.toString_eq_repr, Int.repr_eq_if]
  split
  · obtain ⟨c, cs, hdigits, hc⟩ := Digits.toDigits_eq_cons i.toNat
    exact ⟨c, cs, by rw [Nat.toList_repr, hdigits], by simp [isNumeric, hc]⟩
  · exact ⟨'-', (-i).toNat.repr.toList, by simp, rfl⟩

theorem numberText_head {n : Number} (hn : n.IsWord) :
    ∃ c r, numberText n = c :: r ∧ isNumeric c = true := by
  cases n with
  | float x => exact hn.elim
  | int i => exact numberText_int_head i

/-! ## Values -/

theorem word?_append (word rest : List Char) : word? word (word ++ rest) = some rest :=
  List.isPrefixOf?_eq_some_iff_append_eq.mpr rfl

/-- The text begins with no blank and with no bracket that closes. -/
def Opens (cs : List Char) : Prop :=
  ∃ c r, cs = c :: r ∧ isBlank c = false ∧ c ≠ ']'

theorem Opens.append {cs : List Char} (h : Opens cs) (rest : List Char) : Opens (cs ++ rest) := by
  obtain ⟨c, r, rfl, hc⟩ := h
  exact ⟨c, r ++ rest, rfl, hc⟩

theorem ne_of_isNumeric {c d : Char} (h : isNumeric c = true) (hd : isNumeric d = false) :
    c ≠ d := by
  rintro rfl
  rw [h] at hd
  cases hd

theorem isBlank_of_isNumeric {c : Char} (h : isNumeric c = true) : isBlank c = false := by
  have hspace := ne_of_isNumeric h (d := ' ') (by decide)
  have hline := ne_of_isNumeric h (d := '\n') (by decide)
  have htab := ne_of_isNumeric h (d := '\t') (by decide)
  have hreturn := ne_of_isNumeric h (d := '\r') (by decide)
  simp [isBlank, hspace, hline, htab, hreturn]

theorem chars_opens {v : Json} (h : IsExact v) : Opens (chars v) := by
  cases v with
  | null => exact ⟨'n', _, rfl, by decide⟩
  | bool b => cases b <;> exact ⟨_, _, rfl, by decide⟩
  | num n =>
      obtain ⟨c, r, htext, hc⟩ := numberText_head h
      exact ⟨c, r, htext, isBlank_of_isNumeric hc, ne_of_isNumeric hc (by decide)⟩
  | str s => exact ⟨'"', _, rfl, by decide⟩
  | arr vs => cases vs <;> exact ⟨'[', _, by simp [chars]; rfl, by decide⟩
  | obj ms => cases ms <;> exact ⟨'\x7b', _, by simp [chars]; rfl, by decide⟩

section

variable {fuel depth : Nat} {c : Char} {cs rest : List Char}

theorem value_number (h : isNumeric c = true) :
    value (fuel + 1) depth (c :: cs) = (number? (c :: cs)).map fun p => (.num p.1, p.2) := by
  rw [value, skip_cons (isBlank_of_isNumeric h)]
  dsimp only
  iterate 6 rw [if_neg (ne_of_isNumeric h (by decide))]

theorem value_string (s : String) :
    value (fuel + 1) depth (quoted s ++ rest) = some (.str s, rest) := by
  rw [quoted, List.cons_append, value, skip_cons (by decide)]
  dsimp only
  iterate 3 rw [if_neg (by decide)]
  rw [if_pos rfl, stringBody_quoted]
  simp

theorem value_array (hdepth : 1 < depth) (h : Opens cs) :
    value (fuel + 1) depth ('[' :: cs)
      = (elements fuel (depth - 1) cs).map fun p => (.arr p.1, p.2) := by
  obtain ⟨c, r, rfl, hblank, hne⟩ := h
  rw [value, skip_cons (by decide)]
  dsimp only
  iterate 4 rw [if_neg (by decide)]
  rw [if_pos rfl, if_neg (by omega), skip_cons hblank]
  split
  · rename_i heq
    exact absurd (List.cons.inj heq).1 hne
  · rfl

theorem value_object (hdepth : 1 < depth) (k : String) :
    value (fuel + 1) depth ('\x7b' :: (quoted k ++ cs))
      = (members fuel (depth - 1) (quoted k ++ cs)).map fun p => (.obj p.1, p.2) := by
  rw [value, skip_cons (by decide)]
  dsimp only
  iterate 5 rw [if_neg (by decide)]
  rw [if_pos rfl, if_neg (by omega), quoted, List.cons_append, skip_cons (by decide)]
  rfl

theorem elements_last {v : Json} (h : value fuel depth cs = some (v, ']' :: rest)) :
    elements (fuel + 1) depth cs = some ([v], rest) := by
  rw [elements, h]
  rfl

theorem elements_next {v : Json} {r : List Char} (h : value fuel depth cs = some (v, ',' :: r)) :
    elements (fuel + 1) depth cs = (elements fuel depth r).map fun p => (v :: p.1, p.2) := by
  rw [elements, h]
  rfl

theorem members_last {k : String} {v : Json} (h : value fuel depth cs = some (v, '\x7d' :: rest)) :
    members (fuel + 1) depth (quoted k ++ ':' :: cs) = some ([(k, v)], rest) := by
  simp [members, quoted, skip_cons, isBlank, stringBody_flatMap, h]

theorem members_next {k : String} {v : Json} {r : List Char}
    (h : value fuel depth cs = some (v, ',' :: r)) :
    members (fuel + 1) depth (quoted k ++ ':' :: cs)
      = (members fuel depth r).map fun p => ((k, v) :: p.1, p.2) := by
  simp [members, quoted, skip_cons, isBlank, stringBody_flatMap, h]

end

theorem Opens.length_pos {cs : List Char} (h : Opens cs) : 0 < cs.length := by
  obtain ⟨c, r, rfl, -⟩ := h
  simp

theorem length_elementChars_pos (vs : List Json) : 0 < (elementChars vs).length := by
  cases vs <;> simp [elementChars]

theorem length_memberChars_pos (ms : List (String × Json)) : 0 < (memberChars ms).length := by
  cases ms <;> simp [memberChars]

/-- What is written with so many characters is read to its end, in as many
steps and with any text after it. -/
structure Reads (fuel : Nat) : Prop where
  value : ∀ (v : Json) (depth : Nat) (rest : List Char), IsExact v → levels v < depth →
    (chars v).length ≤ fuel → Closes rest → value fuel depth (chars v ++ rest) = some (v, rest)
  elements : ∀ (v : Json) (vs : List Json) (depth : Nat) (rest : List Char),
    elementsExact (v :: vs) → elementLevels (v :: vs) < depth →
    (chars v ++ elementChars vs).length ≤ fuel →
    elements fuel depth (chars v ++ (elementChars vs ++ rest)) = some (v :: vs, rest)
  members : ∀ (k : String) (v : Json) (ms : List (String × Json)) (depth : Nat)
    (rest : List Char), membersExact ((k, v) :: ms) → memberLevels ((k, v) :: ms) < depth →
    (chars v ++ memberChars ms).length ≤ fuel →
    members fuel depth (quoted k ++ ':' :: (chars v ++ (memberChars ms ++ rest)))
      = some ((k, v) :: ms, rest)

theorem Reads.value_succ {fuel : Nat} (ih : Reads fuel) (v : Json) {depth : Nat}
    {rest : List Char} (hexact : IsExact v) (hlevels : levels v < depth)
    (hfuel : (chars v).length ≤ fuel + 1) (hrest : Closes rest) :
    Json.value (fuel + 1) depth (chars v ++ rest) = some (v, rest) := by
  match v with
  | .null => simpa [chars, Json.value, skip_cons, isBlank] using word?_append "ull".toList rest
  | .bool true =>
      simpa [chars, Json.value, skip_cons, isBlank] using word?_append "rue".toList rest
  | .bool false =>
      simpa [chars, Json.value, skip_cons, isBlank] using word?_append "alse".toList rest
  | .num n =>
      obtain ⟨c, r, htext, hc⟩ := numberText_head hexact
      have hnumber := number?_numberText hexact hrest
      rw [htext, List.cons_append] at hnumber
      rw [chars, htext, List.cons_append, value_number hc, hnumber]
      rfl
  | .str s => exact value_string s
  | .arr [] | .obj [] =>
      have hdepth : ¬ depth ≤ 1 := by
        rw [levels] at hlevels
        omega
      simp [chars, Json.value, skip_cons, isBlank, hdepth]
  | .arr (v :: r) =>
      rw [levels] at hlevels
      rw [chars, List.length_cons] at hfuel
      have hopens : Opens (chars v ++ (elementChars r ++ rest)) := (chars_opens hexact.1).append _
      rw [chars, List.cons_append, List.append_assoc, value_array (by omega) hopens,
        ih.elements v r _ rest hexact (by omega) (by omega)]
      rfl
  | .obj ((k, v) :: r) =>
      rw [levels] at hlevels
      rw [chars, List.length_cons, List.length_append, List.length_cons] at hfuel
      rw [chars, List.cons_append, List.append_assoc, value_object (by omega), List.cons_append,
        List.append_assoc, ih.members k v r _ rest hexact (by omega) (by omega)]
      rfl

theorem Reads.elements_succ {fuel : Nat} (ih : Reads fuel) (v : Json) (vs : List Json)
    {depth : Nat} {rest : List Char} (hexact : elementsExact (v :: vs))
    (hlevels : elementLevels (v :: vs) < depth)
    (hfuel : (chars v ++ elementChars vs).length ≤ fuel + 1) :
    Json.elements (fuel + 1) depth (chars v ++ (elementChars vs ++ rest))
      = some (v :: vs, rest) := by
  obtain ⟨hv, hvs⟩ := hexact
  have hpos := length_elementChars_pos vs
  rw [List.length_append] at hfuel
  rw [elementLevels] at hlevels
  have hread := ih.value v depth _ hv (by omega) (by omega) (closes_elementChars vs rest)
  match vs with
  | [] => exact elements_last hread
  | w :: r =>
      rw [elementChars, List.length_cons] at hfuel
      rw [elementChars, List.cons_append, List.append_assoc] at hread ⊢
      rw [elements_next hread, ih.elements w r depth rest hvs (by omega) (by omega)]
      rfl

theorem Reads.members_succ {fuel : Nat} (ih : Reads fuel) (k : String) (v : Json)
    (ms : List (String × Json)) {depth : Nat} {rest : List Char}
    (hexact : membersExact ((k, v) :: ms)) (hlevels : memberLevels ((k, v) :: ms) < depth)
    (hfuel : (chars v ++ memberChars ms).length ≤ fuel + 1) :
    Json.members (fuel + 1) depth (quoted k ++ ':' :: (chars v ++ (memberChars ms ++ rest)))
      = some ((k, v) :: ms, rest) := by
  obtain ⟨hv, hms⟩ := hexact
  have hpos := length_memberChars_pos ms
  rw [List.length_append] at hfuel
  rw [memberLevels] at hlevels
  have hread := ih.value v depth _ hv (by omega) (by omega) (closes_memberChars ms rest)
  match ms with
  | [] => exact members_last hread
  | (l, w) :: r =>
      rw [memberChars, List.length_cons, List.length_append, List.length_cons] at hfuel
      rw [memberChars, List.cons_append, List.append_assoc, List.cons_append,
        List.append_assoc] at hread ⊢
      rw [members_next hread, ih.members l w r depth rest hms (by omega) (by omega)]
      rfl

/-- Each step of reading takes a character at least, so the length of the
text bounds the steps. -/
theorem reads (fuel : Nat) : Reads fuel := by
  induction fuel with
  | zero =>
      refine ⟨fun v _ _ hexact _ hfuel => ?_, fun v _ _ _ hexact _ hfuel => ?_,
        fun _ v _ _ _ hexact _ hfuel => ?_⟩
      · have hpos := (chars_opens hexact).length_pos
        omega
      · have hpos := (chars_opens hexact.1).length_pos
        rw [List.length_append] at hfuel
        omega
      · have hpos := (chars_opens hexact.1).length_pos
        rw [List.length_append] at hfuel
        omega
  | succ fuel ih =>
      exact ⟨fun v _ _ => ih.value_succ v, fun v vs _ _ => ih.elements_succ v vs,
        fun k v ms _ _ => ih.members_succ k v ms⟩

/-- **Reading the text that was written** gives the value back. -/
theorem parse?_text {v : Json} (hexact : IsExact v) (hlevels : levels v < depthLimit) :
    parse? (text v) = some v := by
  have hread := (reads (2 * (chars v).length + 2)).value v depthLimit [] hexact hlevels (by omega)
    closes_nil
  rw [List.append_nil] at hread
  rw [parse?, text, String.toList_ofList, parseChars?, hread]
  rfl

end Json

end Conformance
