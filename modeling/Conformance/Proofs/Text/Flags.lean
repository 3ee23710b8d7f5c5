import Mathlib.Algebra.Group.Nat.Defs
import Conformance.Acl
import Conformance.Permissions
import Conformance.Proofs.Text.Blank
import Conformance.Proofs.Text.Digits

/-!
# Sets by their text

The text of a set of flags tells the set (`render_inj`): two sets of the
same table that are written alike are equal, bits without a name included.
A table is fit for this when its names are words that differ from each
other and from every number (`Legible`), which those of the permissions
are.

A text is taken apart from its start. A word ends at the first blank, so
texts that begin with words agree in their first word and in what comes
after it (`word_append_inj`).
-/

namespace Conformance

namespace Flags

/-! ## Words between bars -/

/-- Characters that can stand between two bars. -/
def Word (cs : List Char) : Prop := cs ≠ [] ∧ ' ' ∉ cs

/-- What stands between two words. -/
def bar : List Char := [' ', '|', ' ']

/-- The text ends or goes on with a bar. -/
def Stops (rest : List Char) : Prop := ∀ c, rest.head? = some c → c = ' '

theorem word_append_inj {x y r s : List Char} (hx : Word x) (hy : Word y) (hr : Stops r)
    (hs : Stops s) (h : x ++ r = y ++ s) : x = y ∧ r = s := by
  have hword : ∀ {x : List Char}, Word x → ∀ c ∈ x, (c != ' ') = true := by
    intro x hx c hc
    have hne : c ≠ ' ' := fun hblank => hx.2 (hblank ▸ hc)
    simpa using hne
  have hstop : ∀ {r : List Char}, Stops r → ∀ c, r.head? = some c → (c != ' ') = false := by
    intro r hr c hc
    simp [hr c hc]
  exact Text.run_append_inj (hword hx) (hword hy) (hstop hr) (hstop hs) h

theorem stops_bars (xs : List (List Char)) : Stops (xs.flatMap (bar ++ ·)) := by
  cases xs <;> simp [Stops, bar]

theorem bars_inj : ∀ {xs ys : List (List Char)}, (∀ x ∈ xs, Word x) → (∀ y ∈ ys, Word y) →
    xs.flatMap (bar ++ ·) = ys.flatMap (bar ++ ·) → xs = ys
  | [], [], _, _, _ => rfl
  | [], y :: ys, _, _, h => by simp [bar] at h
  | x :: xs, [], _, _, h => by simp [bar] at h
  | x :: xs, y :: ys, hx, hy, h => by
      obtain ⟨hx, hxs⟩ := List.forall_mem_cons.mp hx
      obtain ⟨hy, hys⟩ := List.forall_mem_cons.mp hy
      rw [List.flatMap_cons, List.flatMap_cons, List.append_assoc, List.append_assoc] at h
      obtain ⟨rfl, hrest⟩ := word_append_inj hx hy (stops_bars xs) (stops_bars ys)
        (List.append_cancel_left h)
      rw [bars_inj hxs hys hrest]

theorem intercalate_cons (x : List Char) : ∀ xs : List (List Char),
    bar.intercalate (x :: xs) = x ++ xs.flatMap (bar ++ ·)
  | [] => by simp
  | y :: ys => by
      rw [List.intercalate_cons_cons, intercalate_cons y ys]
      simp

/-- Words with bars between them tell the words. -/
theorem intercalate_inj {xs ys : List (List Char)} (hxs : ∀ x ∈ xs, Word x)
    (hys : ∀ y ∈ ys, Word y) (h : bar.intercalate xs = bar.intercalate ys) : xs = ys := by
  refine bars_inj hxs hys ?_
  -- A bar in front makes no difference, but the text of no words has none.
  rcases xs with _ | ⟨x, xs⟩ <;> rcases ys with _ | ⟨y, ys⟩
  · rfl
  · rw [intercalate_cons] at h
    exact absurd (List.append_eq_nil_iff.mp h.symm).1 (hys y (List.mem_cons_self ..)).1
  · rw [intercalate_cons] at h
    exact absurd (List.append_eq_nil_iff.mp h).1 (hxs x (List.mem_cons_self ..)).1
  · rw [intercalate_cons, intercalate_cons] at h
    rw [List.flatMap_cons, List.flatMap_cons, List.append_assoc, List.append_assoc, h]

/-! ## Names and what is left -/

theorem name_mem_of_split {name : String} : ∀ {table : Table} {bits : Nat},
    name ∈ (split table bits).1 → name ∈ table.map Prod.fst
  | [], _, h => by simp [split] at h
  | (n, mask) :: r, bits, h => by
      rw [split] at h
      split at h
      · exact List.mem_cons.mpr ((List.mem_cons.mp h).imp_right name_mem_of_split)
      · exact List.mem_cons_of_mem _ (name_mem_of_split h)

/-- The bits with those of a flag taken out. -/
def without (bits mask : Nat) : Nat := bits &&& (0xFFFFFFFFFFFFFFFF ^^^ mask)

theorem without_lt {bits mask : Nat} (h : bits < 2 ^ 64) : without bits mask < 2 ^ 64 :=
  Nat.lt_of_le_of_lt Nat.and_le_left h

theorem without_or {bits mask : Nat} (h : bits < 2 ^ 64) (hmask : bits &&& mask = mask) :
    without bits mask ||| mask = bits := by
  refine Nat.eq_of_testBit_eq fun i => ?_
  have hbit : (bits.testBit i && mask.testBit i) = mask.testBit i := by
    rw [← Nat.testBit_and, hmask]
  have hall : (0xFFFFFFFFFFFFFFFF : Nat).testBit i = decide (i < 64) :=
    Nat.testBit_two_pow_sub_one 64 i
  rw [without, Nat.testBit_or, Nat.testBit_and, Nat.testBit_xor, hall]
  rcases Nat.lt_or_ge i 64 with hi | hi
  · rw [decide_eq_true hi]
    revert hbit
    cases bits.testBit i <;> cases mask.testBit i <;> simp
  · have hhigh : bits.testBit i = false :=
      Nat.testBit_lt_two_pow (Nat.lt_of_lt_of_le h (Nat.pow_le_pow_right (by decide) hi))
    rw [← hbit, hhigh]
    rfl

theorem split_of_has {name : String} {mask bits : Nat} {r : Table} (h : bits &&& mask = mask) :
    split ((name, mask) :: r) bits
      = (name :: (split r (without bits mask)).1, (split r (without bits mask)).2) := by
  rw [split, if_pos h]
  rfl

theorem split_of_lacks {name : String} {mask bits : Nat} {r : Table} (h : bits &&& mask ≠ mask) :
    split ((name, mask) :: r) bits = split r bits := by
  rw [split, if_neg h]

/-- The names of a set and the bits without a name tell the set. -/
theorem split_inj : ∀ {table : Table} {a b : Nat}, (table.map Prod.fst).Nodup →
    a < 2 ^ 64 → b < 2 ^ 64 → split table a = split table b → a = b
  | [], _, _, _, _, _, h => (Prod.mk.inj h).2
  | (name, mask) :: r, a, b, hnodup, ha, hb, h => by
      obtain ⟨hname, hrest⟩ := List.nodup_cons.mp hnodup
      -- The name of this flag is that of no other.
      have hother : ∀ {c names left}, split r c ≠ (name :: names, left) := fun heq =>
        hname (name_mem_of_split (by rw [heq]; exact List.mem_cons_self ..))
      by_cases hmask : a &&& mask = mask <;> by_cases hmask' : b &&& mask = mask
      · rw [split_of_has hmask, split_of_has hmask'] at h
        obtain ⟨hnames, hleft⟩ := Prod.mk.inj h
        have hwithout : without a mask = without b mask :=
          split_inj hrest (without_lt ha) (without_lt hb)
            (Prod.ext (List.cons.inj hnames).2 hleft)
        rw [← without_or ha hmask, hwithout, without_or hb hmask']
      · rw [split_of_has hmask, split_of_lacks hmask'] at h
        exact absurd h.symm hother
      · rw [split_of_lacks hmask, split_of_has hmask'] at h
        exact absurd h hother
      · rw [split_of_lacks hmask, split_of_lacks hmask'] at h
        exact split_inj hrest ha hb h

/-! ## Texts -/

/-- The names of the table differ, and each is a word that is no number. -/
structure Legible (table : Table) : Prop where
  differ : (table.map Prod.fst).Nodup
  word : ∀ name ∈ table.map Prod.fst, Word name.toList
  noNumbers : ∀ name ∈ table.map Prod.fst, name.toList.head? ≠ some '0'

/-- A number as it stands among names. -/
def number (n : Nat) : String := String.ofList ('0' :: 'x' :: Nat.toDigits 16 n)

theorem number_inj {n m : Nat} (h : number n = number m) : n = m := by
  have hdigits := String.ofList_inj.mp h
  rw [List.cons.injEq, List.cons.injEq] at hdigits
  exact Digits.toDigits_inj (by decide) (by decide) hdigits.2.2

theorem word_number (n : Nat) : Word (number n).toList := by
  refine ⟨by simp [number], ?_⟩
  have hdigits := Digits.isSome_value?_of_extend?
    (Digits.extend?_toDigits (show 1 < 16 by decide) (by decide) n)
  rw [number, String.toList_ofList]
  intro hblank
  have hmem : ' ' ∈ Nat.toDigits 16 n := by simpa using hblank
  exact absurd (hdigits ' ' hmem) (by decide)

/-- The words of a set. -/
def words (names : List String) (left : Nat) : List String :=
  if left = 0 then names else names ++ [number left]

theorem render_eq (table : Table) (bits : Nat) :
    render table bits = " | ".intercalate (words (split table bits).1 (split table bits).2) :=
  rfl

section

variable {table : Table} (ht : Legible table)

include ht

theorem Legible.word_of_mem_words {bits : Nat} {x : String}
    (hx : x ∈ words (split table bits).1 (split table bits).2) : Word x.toList := by
  unfold words at hx
  split at hx
  · exact ht.word x (name_mem_of_split hx)
  · rcases List.mem_append.mp hx with hx | hx
    · exact ht.word x (name_mem_of_split hx)
    · rw [List.mem_singleton.mp hx]
      exact word_number _

theorem Legible.number_not_mem_split (n bits : Nat) : number n ∉ (split table bits).1 := by
  intro hmem
  exact ht.noNumbers _ (name_mem_of_split hmem) (by simp [number])

theorem Legible.words_inj {a b : Nat}
    (h : words (split table a).1 (split table a).2 = words (split table b).1 (split table b).2) :
    split table a = split table b := by
  unfold words at h
  split at h <;> rename_i hleft <;> split at h <;> rename_i hleft'
  · exact Prod.ext h (hleft.trans hleft'.symm)
  · exact absurd (h ▸ List.mem_append_right _ (List.mem_singleton_self _))
      (ht.number_not_mem_split (split table b).2 a)
  · exact absurd (h ▸ List.mem_append_right _ (List.mem_singleton_self _))
      (ht.number_not_mem_split (split table a).2 b)
  · obtain ⟨hnames, hnumber⟩ := List.append_inj' h rfl
    exact Prod.ext hnames (number_inj (List.singleton_inj.mp hnumber))

/-- **The text of a set tells the set.** -/
theorem Legible.render_inj {a b : Nat} (ha : a < 2 ^ 64) (hb : b < 2 ^ 64)
    (h : render table a = render table b) : a = b := by
  rw [render_eq, render_eq, ← String.toList_inj, String.toList_intercalate,
    String.toList_intercalate] at h
  have hwords {bits : Nat} : ∀ cs ∈ (words (split table bits).1 (split table bits).2).map
      String.toList, Word cs := by
    intro cs hcs
    obtain ⟨x, hx, rfl⟩ := List.mem_map.mp hcs
    exact ht.word_of_mem_words hx
  have hlists := intercalate_inj hwords hwords h
  exact split_inj ht.differ ha hb
    (ht.words_inj ((List.map_inj_right fun _ _ => String.toList_inj.mp).mp hlists))

end

end Flags

/-! ## Permissions -/

theorem Permissions.names_legible : Flags.Legible Permissions.names := by
  refine ⟨by decide, ?_, ?_⟩ <;> simp [Permissions.names, Flags.Word]

theorem AclPerms.names_legible : Flags.Legible AclPerms.names := by
  refine ⟨by decide, ?_, ?_⟩ <;> simp [AclPerms.names, Flags.Word]

theorem Permissions.flagText_inj {p q : Permissions} (h : p.flagText = q.flagText) : p = q := by
  have hbits := names_legible.render_inj (Nat.lt_trans p.bits.toNat_lt (by decide))
    (Nat.lt_trans q.bits.toNat_lt (by decide)) h
  exact congrArg Permissions.mk (UInt16.toNat_inj.mp hbits)

theorem AclPerms.flagText_inj {p q : AclPerms} (h : p.flagText = q.flagText) : p = q := by
  have hbits := names_legible.render_inj (Nat.lt_trans p.bits.toNat_lt (by decide))
    (Nat.lt_trans q.bits.toNat_lt (by decide)) h
  exact congrArg AclPerms.mk (UInt8.toNat_inj.mp hbits)

end Conformance
