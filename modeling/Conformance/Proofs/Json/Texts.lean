import Mathlib
import Conformance.Proofs.Json.Members
import Conformance.Proofs.Json.RoundTrip
import Conformance.Proofs.Text.Blank

/-!
# Values by their text

The text of a value tells the value (`text_inj`) if all its numbers are
whole. They may be of any size here, also of one that would not be read
back, and the value may be nested as deeply as it likes: nothing is read,
two texts are compared from their start.

The first character tells the sort of a value (`mark_eq`). Where two texts
that begin with a value agree, they agree in the value and in what comes
after it (`Told`), as long as this ends the value; the induction is on the
value.
-/

namespace Conformance.Json

/-- All numbers of the value are whole. -/
inductive IsWhole : Json → Prop where
  | null : IsWhole .null
  | bool (b : Bool) : IsWhole (.bool b)
  | int (i : Int) : IsWhole (.num (.int i))
  | str (s : String) : IsWhole (.str s)
  | arr {vs : List Json} (h : ∀ v ∈ vs, IsWhole v) : IsWhole (.arr vs)
  | obj {ms : List (String × Json)} (h : ∀ m ∈ ms, IsWhole m.2) : IsWhole (.obj ms)

theorem IsWhole.object {ms : List (String × Json)} (h : ∀ m ∈ ms, IsWhole m.2) :
    IsWhole (object ms) := by
  refine .obj fun m hm => ?_
  rcases mem_of_mem_foldl_insert hm with hm | hm
  · exact h m hm
  · exact absurd hm List.not_mem_nil

/-! ## Numbers and strings -/

theorem isNumeric_of_mem {i : Int} : ∀ c ∈ numberText (.int i), isNumeric c = true := by
  intro c hc
  have hdigits : ∀ {n : Nat}, c ∈ Nat.toDigits 10 n → isNumeric c = true := fun hmem => by
    simp [isNumeric, Digits.isDecimal_of_mem_toDigits hmem]
  rw [numberText, Int.toString_eq_repr, Int.repr_eq_if] at hc
  split at hc
  · rw [Nat.toList_repr] at hc
    exact hdigits hc
  · rw [String.toList_append, Nat.toList_repr] at hc
    rcases List.mem_append.mp hc with hc | hc
    · rw [List.mem_singleton.mp hc]
      rfl
    · exact hdigits hc

theorem isNumeric_of_closes {rest : List Char} (h : Closes rest) :
    ∀ c, rest.head? = some c → isNumeric c = false := by
  intro c hc
  rcases h c hc with rfl | rfl | rfl <;> decide

theorem number_append_inj {i j : Int} {rest rest' : List Char} (hrest : Closes rest)
    (hrest' : Closes rest') (h : numberText (.int i) ++ rest = numberText (.int j) ++ rest') :
    i = j ∧ rest = rest' := by
  obtain ⟨htext, heq⟩ := Text.run_append_inj isNumeric_of_mem isNumeric_of_mem
    (isNumeric_of_closes hrest) (isNumeric_of_closes hrest') h
  exact ⟨Int.repr_inj.mp (String.toList_inj.mp htext), heq⟩

theorem quoted_append_inj {s t : String} {rest rest' : List Char}
    (h : quoted s ++ rest = quoted t ++ rest') : s = t ∧ rest = rest' := by
  have hbody : s.toList.flatMap escaped ++ ['"'] ++ rest
      = t.toList.flatMap escaped ++ ['"'] ++ rest' := (List.cons.inj h).2
  have hread := stringBody_quoted s rest
  rw [hbody, stringBody_quoted, Option.some.injEq, Prod.mk.injEq] at hread
  exact ⟨(String.toList_inj.mp hread.1).symm, hread.2.symm⟩

/-! ## The first character -/

/-- The sort of value that a character begins: numbers begin alike, and so
do the truth values. -/
def sortOf (c : Char) : Char := if isNumeric c then '0' else if c = 'f' then 't' else c

/-- The sort of a value. -/
def mark : Json → Char
  | .null => 'n'
  | .bool _ => 't'
  | .num _ => '0'
  | .str _ => '"'
  | .arr _ => '['
  | .obj _ => '\x7b'

theorem mark_eq {v : Json} (h : IsWhole v) : ∃ c r, chars v = c :: r ∧ sortOf c = mark v := by
  cases h with
  | null => exact ⟨'n', _, rfl, rfl⟩
  | bool b => cases b <;> exact ⟨_, _, rfl, rfl⟩
  | int i =>
      obtain ⟨c, r, htext, hc⟩ := numberText_int_head i
      exact ⟨c, r, htext, if_pos hc⟩
  | str s => exact ⟨'"', _, rfl, rfl⟩
  | @arr vs _ => cases vs <;> exact ⟨'[', _, rfl, rfl⟩
  | @obj ms _ => rcases ms with _ | ⟨⟨k, v⟩, r⟩ <;> exact ⟨'\x7b', _, rfl, rfl⟩

theorem mark_eq_mark {v w : Json} {rest rest' : List Char} (hv : IsWhole v) (hw : IsWhole w)
    (h : chars v ++ rest = chars w ++ rest') : mark v = mark w := by
  obtain ⟨c, r, htext, hc⟩ := mark_eq hv
  obtain ⟨d, s, htext', hd⟩ := mark_eq hw
  rw [htext, htext'] at h
  rw [← hc, ← hd, (List.cons.inj h).1]

/-- No text of a value begins with the bracket that closes an array. -/
theorem chars_ne_bracket {v : Json} (hv : IsWhole v) {rest rest' : List Char} :
    chars v ++ rest ≠ ']' :: rest' := by
  obtain ⟨c, r, htext, hc⟩ := mark_eq hv
  rw [htext]
  rintro ⟨⟩
  have hmark : ']' = mark v := hc
  cases hv <;> cases hmark

/-! ## Values -/

/-- Whatever comes after it, the text of the value tells it. -/
def Told (v : Json) : Prop :=
  ∀ {w : Json} {rest rest' : List Char}, IsWhole w → Closes rest → Closes rest' →
    chars v ++ rest = chars w ++ rest' → v = w ∧ rest = rest'

theorem elements_append_inj : ∀ {vs ws : List Json} {rest rest' : List Char},
    (∀ v ∈ vs, Told v) → (∀ w ∈ ws, IsWhole w) →
    elementChars vs ++ rest = elementChars ws ++ rest' → vs = ws ∧ rest = rest'
  | [], [], _, _, _, _, h => ⟨rfl, (List.cons.inj h).2⟩
  | [], w :: ws, _, _, _, _, h => by cases h
  | v :: vs, [], _, _, _, _, h => by cases h
  | v :: vs, w :: ws, rest, rest', hvs, hws, h => by
      obtain ⟨hv, hvs'⟩ := List.forall_mem_cons.mp hvs
      obtain ⟨hw, hws'⟩ := List.forall_mem_cons.mp hws
      have htail : chars v ++ (elementChars vs ++ rest) = chars w ++ (elementChars ws ++ rest') := by
        simpa [elementChars] using h
      obtain ⟨rfl, hmore⟩ := hv hw (closes_elementChars vs rest) (closes_elementChars ws rest') htail
      obtain ⟨rfl, hrest⟩ := elements_append_inj hvs' hws' hmore
      exact ⟨rfl, hrest⟩

theorem members_append_inj : ∀ {ms ns : List (String × Json)} {rest rest' : List Char},
    (∀ m ∈ ms, Told m.2) → (∀ n ∈ ns, IsWhole n.2) →
    memberChars ms ++ rest = memberChars ns ++ rest' → ms = ns ∧ rest = rest'
  | [], [], _, _, _, _, h => ⟨rfl, (List.cons.inj h).2⟩
  | [], (l, w) :: ns, _, _, _, _, h => by cases h
  | (k, v) :: ms, [], _, _, _, _, h => by cases h
  | (k, v) :: ms, (l, w) :: ns, rest, rest', hms, hns, h => by
      obtain ⟨hv, hms'⟩ := List.forall_mem_cons.mp hms
      obtain ⟨hw, hns'⟩ := List.forall_mem_cons.mp hns
      have htail : quoted k ++ (':' :: (chars v ++ (memberChars ms ++ rest)))
          = quoted l ++ (':' :: (chars w ++ (memberChars ns ++ rest'))) := by
        simpa [memberChars] using h
      obtain ⟨rfl, hvalue⟩ := quoted_append_inj htail
      obtain ⟨rfl, hmore⟩ := hv hw (closes_memberChars ms rest) (closes_memberChars ns rest')
        (List.cons.inj hvalue).2
      obtain ⟨rfl, hrest⟩ := members_append_inj hms' hns' hmore
      exact ⟨rfl, hrest⟩

theorem told_arr {vs : List Json} (hvs : ∀ v ∈ vs, IsWhole v) (ih : ∀ v ∈ vs, Told v) :
    Told (.arr vs) := by
  intro w rest rest' hw _ _ h
  have hmark := mark_eq_mark (.arr hvs) hw h
  cases hw with
  | @arr ws hws =>
      -- Behind the bracket stands what would stand behind a comma.
      rcases vs with _ | ⟨v, vs⟩ <;> rcases ws with _ | ⟨w, ws⟩
      · exact ⟨rfl, by simpa [chars] using h⟩
      · have hclose : chars w ++ (elementChars ws ++ rest') = ']' :: rest := by
          simpa [chars] using h.symm
        exact absurd hclose (chars_ne_bracket (hws w (List.mem_cons_self ..)))
      · have hclose : chars v ++ (elementChars vs ++ rest) = ']' :: rest' := by
          simpa [chars] using h
        exact absurd hclose (chars_ne_bracket (hvs v (List.mem_cons_self ..)))
      · have helements : elementChars (v :: vs) ++ rest = elementChars (w :: ws) ++ rest' := by
          simpa [chars, elementChars] using h
        obtain ⟨heq, hrest⟩ := elements_append_inj ih hws helements
        exact ⟨congrArg Json.arr heq, hrest⟩
  | _ => cases hmark

theorem told_obj {ms : List (String × Json)} (hms : ∀ m ∈ ms, IsWhole m.2)
    (ih : ∀ m ∈ ms, Told m.2) : Told (.obj ms) := by
  intro w rest rest' hw _ _ h
  have hmark := mark_eq_mark (.obj hms) hw h
  cases hw with
  | @obj ns hns =>
      rcases ms with _ | ⟨⟨k, v⟩, ms⟩ <;> rcases ns with _ | ⟨⟨l, w⟩, ns⟩
      · exact ⟨rfl, by simpa [chars] using h⟩
      · simp [chars, quoted] at h
      · simp [chars, quoted] at h
      · have hmembers : memberChars ((k, v) :: ms) ++ rest = memberChars ((l, w) :: ns) ++ rest' := by
          simpa [chars, memberChars] using h
        obtain ⟨heq, hrest⟩ := members_append_inj ih hns hmembers
        exact ⟨congrArg Json.obj heq, hrest⟩
  | _ => cases hmark

theorem IsWhole.told {v : Json} (hv : IsWhole v) : Told v := by
  induction hv with
  | arr hvs ih => exact told_arr hvs ih
  | obj hms ih => exact told_obj hms ih
  | null =>
      intro w rest rest' hw _ _ h
      have hmark := mark_eq_mark .null hw h
      cases hw with
      | null => exact ⟨rfl, List.append_cancel_left h⟩
      | _ => cases hmark
  | bool b =>
      intro w rest rest' hw _ _ h
      have hmark := mark_eq_mark (.bool b) hw h
      cases hw with
      | bool c =>
          rcases b with _ | _ <;> rcases c with _ | _
          · exact ⟨rfl, List.append_cancel_left h⟩
          · cases h
          · cases h
          · exact ⟨rfl, List.append_cancel_left h⟩
      | _ => cases hmark
  | int i =>
      intro w rest rest' hw hrest hrest' h
      have hmark := mark_eq_mark (.int i) hw h
      cases hw with
      | int j =>
          obtain ⟨rfl, hmore⟩ := number_append_inj hrest hrest' h
          exact ⟨rfl, hmore⟩
      | _ => cases hmark
  | str s =>
      intro w rest rest' hw _ _ h
      have hmark := mark_eq_mark (.str s) hw h
      cases hw with
      | str t =>
          obtain ⟨rfl, hmore⟩ := quoted_append_inj h
          exact ⟨rfl, hmore⟩
      | _ => cases hmark

/-- **The text of a value tells the value.** -/
theorem text_inj {v w : Json} (hv : IsWhole v) (hw : IsWhole w) (h : text v = text w) : v = w :=
  (hv.told hw closes_nil closes_nil (congrArg (· ++ []) (String.ofList_inj.mp h))).1

end Conformance.Json
