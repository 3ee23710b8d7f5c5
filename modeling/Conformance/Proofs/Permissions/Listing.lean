import Mathlib.Data.List.Basic
import Mathlib.Data.Nat.Bitwise
import Conformance.Permissions

/-!
# Permissions in the notation of a listing

The three characters of a class of users tell its four bits, so what is
read of them is what is written (`UserClass.bits?_eq_some`). The classes
have no bit in common, so this goes for the nine characters of all classes
together (`readClasses_eq_some`), and a text is the notation of a set or
is refused.
-/

namespace Conformance.Permissions

/-! ## Bits -/

/-- A set without bits that have no name. -/
def Known (p : Permissions) : Prop := p.bits &&& 0o7777 = p.bits

theorem or_and (x y m : UInt16) : (x ||| y) &&& m = x &&& m ||| y &&& m := by
  refine UInt16.toNat_inj.mp (Nat.eq_of_testBit_eq fun i => ?_)
  simp [Bool.and_or_distrib_right]

theorem and_or (x m n : UInt16) : x &&& (m ||| n) = x &&& m ||| x &&& n := by
  simp only [UInt16.and_comm x, or_and]

theorem and_or_self (x m : UInt16) : x &&& m ||| m = m := by
  refine UInt16.toNat_inj.mp (Nat.eq_of_testBit_eq fun i => ?_)
  simp

/-- A mask of one bit. -/
def Single (m : UInt16) : Prop := ∃ i < 16, m.toNat = 2 ^ i

instance : DecidablePred Single := fun m =>
  inferInstanceAs (Decidable (∃ i < 16, m.toNat = 2 ^ i))

/-- Of a single bit a set has all or nothing. -/
theorem and_single {m : UInt16} (hm : Single m) (p : Permissions) :
    p.bits &&& m = if p.has m then m else 0 := by
  obtain ⟨i, -, hm⟩ := hm
  have hbit : p.bits &&& m = m ∨ p.bits &&& m = 0 := by
    simp only [← UInt16.toNat_inj, UInt16.toNat_and, UInt16.toNat_zero, hm, Nat.and_two_pow]
    cases p.bits.toNat.testBit i <;> simp
  rcases hbit with h | h
  · simp [has, h]
  · simp [has, h]

/-- Sets that agree in a mask have the same of what is within it. -/
theorem has_congr {p q : Permissions} {mask m : UInt16}
    (h : p.bits &&& mask = q.bits &&& mask) (hm : mask &&& m = m) : p.has m = q.has m := by
  have hbits : p.bits &&& m = q.bits &&& m := by
    rw [← hm, ← UInt16.and_assoc, ← UInt16.and_assoc, h]
  rw [has, has, hbits]

/-! ## One class -/

namespace UserClass

variable {k : UserClass} {p q : Permissions} {a b c : Char}

/-- All bits of the class. -/
def mask (k : UserClass) : UInt16 := k.read ||| k.write ||| k.execute ||| k.special

/-- The bits of a class are single ones, and its last letters differ from
each other. -/
structure Legible (k : UserClass) : Prop where
  read : Single k.read
  write : Single k.write
  execute : Single k.execute
  special : Single k.special
  letters : ['x', '-', k.letter, k.letter.toUpper].Nodup

theorem legible (hk : k ∈ classes) : k.Legible := by
  simp only [classes, List.mem_cons, List.not_mem_nil, or_false] at hk
  rcases hk with rfl | rfl | rfl
  · exact ⟨by decide, by decide, by decide, by decide, by decide⟩
  · exact ⟨by decide, by decide, by decide, by decide, by decide⟩
  · exact ⟨by decide, by decide, by decide, by decide, by decide⟩

theorem mask_and {m : UInt16}
    (hm : m = k.read ∨ m = k.write ∨ m = k.execute ∨ m = k.special) : k.mask &&& m = m := by
  refine UInt16.toNat_inj.mp (Nat.eq_of_testBit_eq fun i => ?_)
  rcases hm with rfl | rfl | rfl | rfl <;> simp +contextual [mask]

/-- What is written of a class depends on its own bits alone. -/
theorem chars_congr (h : p.bits &&& k.mask = q.bits &&& k.mask) : k.chars p = k.chars q := by
  rw [chars, chars, has_congr h (mask_and (.inl rfl)), has_congr h (mask_and (.inr (.inl rfl))),
    has_congr h (mask_and (.inr (.inr (.inl rfl)))),
    has_congr h (mask_and (.inr (.inr (.inr rfl))))]

theorem bit?_letter {m : UInt16} (hm : Single m) {letter : Char} (hletter : letter ≠ '-')
    (p : Permissions) :
    bit? m letter (if p.has m then letter else '-') = some (p.bits &&& m) := by
  rw [and_single hm, bit?]
  cases p.has m
  · simp [hletter.symm]
  · simp

theorem lastBits?_letter (hk : k.Legible) (h : k.chars p = [a, b, c]) :
    k.lastBits? c = some (p.bits &&& k.execute ||| p.bits &&& k.special) := by
  have hletters := hk.letters
  simp only [List.nodup_cons, List.mem_cons, List.not_mem_nil, or_false, not_or] at hletters
  obtain ⟨⟨-, hx, hupperX⟩, ⟨hdash, hupperDash⟩, hupper, -⟩ := hletters
  rw [chars] at h
  obtain ⟨-, -, rfl⟩ := by simpa using h
  rw [and_single hk.execute, and_single hk.special, lastBits?]
  cases p.has k.execute <;> cases p.has k.special <;> simp [*, Ne.symm]

/-- The bits of a class are read as they are written. -/
theorem bits?_chars (hk : k.Legible) (h : k.chars p = [a, b, c]) :
    k.bits? a b c = some (p.bits &&& k.mask) := by
  have hlast := lastBits?_letter hk h
  rw [chars] at h
  obtain ⟨rfl, rfl, -⟩ := by simpa using h
  rw [bits?, bit?_letter hk.read (by decide), bit?_letter hk.write (by decide), hlast]
  simp only [mask, and_or, UInt16.or_assoc]

theorem of_bit? {m x : UInt16} {letter : Char} (h : bit? m letter c = some x) :
    c = letter ∧ x = m ∨ c = '-' ∧ x = 0 := by
  unfold bit? at h
  split at h
  · exact .inl ⟨by assumption, (Option.some.inj h).symm⟩
  · split at h
    · exact .inr ⟨by assumption, (Option.some.inj h).symm⟩
    · cases h

theorem of_lastBits? {x : UInt16} (h : k.lastBits? c = some x) :
    c = 'x' ∧ x = k.execute ∨ c = '-' ∧ x = 0 ∨ c = k.letter ∧ x = k.execute ||| k.special
      ∨ c = k.letter.toUpper ∧ x = k.special := by
  unfold lastBits? at h
  split at h
  · exact .inl ⟨by assumption, (Option.some.inj h).symm⟩
  · split at h
    · exact .inr (.inl ⟨by assumption, (Option.some.inj h).symm⟩)
    · split at h
      · exact .inr (.inr (.inl ⟨by assumption, (Option.some.inj h).symm⟩))
      · split at h
        · exact .inr (.inr (.inr ⟨by assumption, (Option.some.inj h).symm⟩))
        · cases h

/-- What is read of a class is written in the characters that it was read
from. -/
theorem chars_of_bits? (hk : k ∈ classes) {x : UInt16} (h : k.bits? a b c = some x) :
    x &&& k.mask = x ∧ k.chars ⟨x⟩ = [a, b, c] := by
  unfold bits? at h
  split at h
  · rename_i r w e hr hw he
    obtain rfl := Option.some.inj h
    simp only [classes, List.mem_cons, List.not_mem_nil, or_false] at hk
    rcases hk with rfl | rfl | rfl <;>
      rcases of_bit? hr with ⟨rfl, rfl⟩ | ⟨rfl, rfl⟩ <;>
      rcases of_bit? hw with ⟨rfl, rfl⟩ | ⟨rfl, rfl⟩ <;>
      rcases of_lastBits? he with ⟨rfl, rfl⟩ | ⟨rfl, rfl⟩ | ⟨rfl, rfl⟩ | ⟨rfl, rfl⟩ <;>
      exact ⟨by decide, by decide⟩
  · cases h

/-- **One class.** Its characters are read as just those bits that are
written in them. -/
theorem bits?_eq_some (hk : k ∈ classes) {x : UInt16} :
    k.bits? a b c = some x ↔ x &&& k.mask = x ∧ k.chars ⟨x⟩ = [a, b, c] := by
  refine ⟨chars_of_bits? hk, ?_⟩
  rintro ⟨hx, hchars⟩
  rw [bits?_chars (legible hk) hchars, hx]

end UserClass

/-! ## All classes -/

/-- The bits of several classes. -/
def masks (ks : List UserClass) : UInt16 := ks.foldr (·.mask ||| ·) 0

/-- Classes that have no bit in common. -/
def Apart : List UserClass → Prop
  | [] => True
  | k :: ks => k.mask &&& masks ks = 0 ∧ Apart ks

theorem masks_and {ks : List UserClass} {k : UserClass} (hk : k ∈ ks) :
    masks ks &&& k.mask = k.mask := by
  induction ks with
  | nil => cases hk
  | cons k' ks ih =>
      have hmasks : masks (k' :: ks) = k'.mask ||| masks ks := rfl
      rw [hmasks, or_and]
      rcases List.mem_cons.mp hk with rfl | hk
      · rw [UInt16.and_self, UInt16.or_comm, and_or_self]
      · rw [ih hk, and_or_self]

/-- What is written of some classes depends on their bits alone. -/
theorem flatMap_chars_congr {ks : List UserClass} {p q : Permissions}
    (h : p.bits &&& masks ks = q.bits &&& masks ks) :
    (ks.flatMap fun k => k.chars p) = ks.flatMap fun k => k.chars q := by
  refine List.flatMap_congr fun k hk => UserClass.chars_congr ?_
  rw [← masks_and hk, ← UInt16.and_assoc, ← UInt16.and_assoc, h]

theorem readClasses_cons {k : UserClass} {ks : List UserClass} {cs : List Char} {x : UInt16} :
    readClasses (k :: ks) cs = some x ↔ ∃ a b c r y z, cs = a :: b :: c :: r
      ∧ k.bits? a b c = some y ∧ readClasses ks r = some z ∧ x = y ||| z := by
  constructor
  · intro h
    match cs, h with
    | a :: b :: c :: r, h =>
        rw [readClasses] at h
        split at h
        · rename_i y z hy hz
          exact ⟨a, b, c, r, y, z, rfl, hy, hz, (Option.some.inj h).symm⟩
        · cases h
    | [], h | [_], h | [_, _], h => cases h
  · rintro ⟨a, b, c, r, y, z, rfl, hy, hz, rfl⟩
    simp only [readClasses, hy, hz]

/-- **Classes without a common bit.** They are read as just those bits that
are written in them. -/
theorem readClasses_eq_some : ∀ {ks : List UserClass} {cs : List Char} {x : UInt16},
    (∀ k ∈ ks, k ∈ classes) → Apart ks →
      (readClasses ks cs = some x
        ↔ x &&& masks ks = x ∧ (ks.flatMap fun k => k.chars ⟨x⟩) = cs)
  | [], cs, x, _, _ => by
      cases cs with
      | nil => simp [readClasses, masks, eq_comm]
      | cons c r => simp [readClasses]
  | k :: ks, cs, x, hks, hapart => by
      obtain ⟨hk, hks⟩ := List.forall_mem_cons.mp hks
      obtain ⟨hdisjoint, hapart⟩ := hapart
      have hmasks : masks (k :: ks) = k.mask ||| masks ks := rfl
      rw [readClasses_cons, hmasks, List.flatMap_cons]
      constructor
      · rintro ⟨a, b, c, r, y, z, rfl, hy, hz, rfl⟩
        obtain ⟨hy, hchars⟩ := (UserClass.bits?_eq_some hk).mp hy
        obtain ⟨hz, hrest⟩ := (readClasses_eq_some hks hapart).mp hz
        -- Neither part has bits of the other one.
        have hyz : (y ||| z) &&& k.mask = y := by
          rw [or_and, hy, ← hz, UInt16.and_assoc, UInt16.and_comm _ k.mask, hdisjoint,
            UInt16.and_zero, UInt16.or_zero]
        have hzy : (y ||| z) &&& masks ks = z := by
          rw [or_and, hz, ← hy, UInt16.and_assoc, hdisjoint, UInt16.and_zero, UInt16.zero_or]
        refine ⟨by rw [and_or, hyz, hzy], ?_⟩
        have hfirst : k.chars ⟨y ||| z⟩ = k.chars ⟨y⟩ :=
          UserClass.chars_congr (hyz.trans hy.symm)
        have hothers : (ks.flatMap fun k => k.chars ⟨y ||| z⟩) = ks.flatMap fun k => k.chars ⟨z⟩ :=
          flatMap_chars_congr (hzy.trans hz.symm)
        rw [hfirst, hchars, hothers, hrest]
        rfl
      · rintro ⟨hx, rfl⟩
        have hself : ∀ m : UInt16, x &&& m &&& m = x &&& m := fun m => by
          rw [UInt16.and_assoc, UInt16.and_self]
        refine ⟨_, _, _, _, x &&& k.mask, x &&& masks ks, rfl,
          (UserClass.bits?_eq_some hk).mpr ⟨hself _, UserClass.chars_congr (hself _)⟩,
          (readClasses_eq_some hks hapart).mpr ⟨hself _, flatMap_chars_congr (hself _)⟩, ?_⟩
        rw [← and_or, hx]

/-! ## Texts -/

theorem masks_classes : masks classes = 0o7777 := by
  decide

theorem classes_apart : Apart classes := by
  exact ⟨by decide, by decide, by decide, trivial⟩

/-- A set is read from its own notation, and from no other text. -/
theorem ofSymbolic_eq_ok {text : String} {p : Permissions} :
    ofSymbolic text = .ok p ↔ p.Known ∧ p.symbolic = text := by
  obtain ⟨bits⟩ := p
  have hread := @readClasses_eq_some classes text.toList bits (fun _ hk => hk) classes_apart
  rw [masks_classes] at hread
  rw [Known, symbolic, ← String.toList_inj, String.toList_ofList, ← hread, ofSymbolic]
  cases readClasses classes text.toList <;> simp

/-- A refusal tells the text. -/
theorem literal_of_ofSymbolic {text : String} {fault : PermissionFault}
    (h : ofSymbolic text = .error fault) : fault = ⟨text⟩ := by
  unfold ofSymbolic at h
  split at h
  · cases h
  · exact (Except.error.inj h).symm

/-- The sets of one notation agree in all bits that have a name. -/
theorem symbolic_eq_iff {p q : Permissions} :
    p.symbolic = q.symbolic ↔ p.bits &&& 0o7777 = q.bits &&& 0o7777 := by
  constructor
  · intro h
    -- With its other bits left out, a set is read from its notation.
    have hread : ∀ p : Permissions, ofSymbolic p.symbolic = .ok ⟨p.bits &&& 0o7777⟩ := fun p => by
      refine ofSymbolic_eq_ok.mpr ⟨?_, congrArg String.ofList (flatMap_chars_congr ?_)⟩
      · rw [Known, UInt16.and_assoc, UInt16.and_self]
      · rw [masks_classes, UInt16.and_assoc, UInt16.and_self]
    have hp := hread p
    rw [h, hread q] at hp
    exact congrArg bits (Except.ok.inj hp).symm
  · intro h
    rw [← masks_classes] at h
    exact congrArg String.ofList (flatMap_chars_congr h)

/-- Sets that agree in single bits agree in all of them together. -/
theorem and_foldr_congr {p q : Permissions} {ms : List UInt16}
    (h : ∀ m ∈ ms, Single m ∧ p.has m = q.has m) :
    p.bits &&& ms.foldr (· ||| ·) 0 = q.bits &&& ms.foldr (· ||| ·) 0 := by
  induction ms with
  | nil => rw [List.foldr_nil, UInt16.and_zero, UInt16.and_zero]
  | cons m ms ih =>
      obtain ⟨⟨hm, hhas⟩, hms⟩ := List.forall_mem_cons.mp h
      rw [List.foldr_cons, and_or, and_or, ih hms, and_single hm, and_single hm, hhas]

/-- The permissions that have a name. -/
def flags : List UInt16 := names.map fun flag => .ofNat flag.2

theorem flags_single : ∀ m ∈ flags, Single m :=
  List.forall_iff_forall_mem.mp (by decide)

theorem foldr_flags : flags.foldr (· ||| ·) 0 = 0o7777 :=
  rfl

theorem flags_and : ∀ m ∈ flags, 0o7777 &&& m = m :=
  List.forall_iff_forall_mem.mp (by decide)

theorem known_bits_eq_iff {p q : Permissions} :
    p.bits &&& 0o7777 = q.bits &&& 0o7777 ↔ ∀ m ∈ flags, p.has m = q.has m := by
  constructor
  · intro h m hm
    exact has_congr h (flags_and m hm)
  · intro h
    rw [← foldr_flags]
    exact and_foldr_congr fun m hm => ⟨flags_single m hm, h m hm⟩

/-- **The notation of a listing.** A text is read as a set without unknown
bits just if it is the notation of the set. Only such sets are read, each
from one text; any other text is refused. Two sets have one notation just
if they agree in every permission that has a name, the special ones and
those to execute among them. -/
theorem ofSymbolic_inverse :
    (∀ (text : String) (p : Permissions), p.Known →
        (ofSymbolic text = .ok p ↔ text = p.symbolic))
      ∧ (∀ text p, ofSymbolic text = .ok p →
        p.Known ∧ ∀ text', ofSymbolic text' = .ok p → text' = text)
      ∧ (∀ text, (∀ p : Permissions, p.Known → text ≠ p.symbolic) →
        ofSymbolic text = .error ⟨text⟩)
      ∧ ∀ p q : Permissions, p.symbolic = q.symbolic ↔ ∀ flag ∈ flags, p.has flag = q.has flag := by
  refine ⟨fun text p hp => ?_, fun text p h => ?_, fun text hno => ?_,
    fun p q => symbolic_eq_iff.trans known_bits_eq_iff⟩
  · rw [ofSymbolic_eq_ok, and_iff_right hp, eq_comm]
  · obtain ⟨hp, rfl⟩ := ofSymbolic_eq_ok.mp h
    exact ⟨hp, fun text' h' => (ofSymbolic_eq_ok.mp h').2.symm⟩
  · cases h : ofSymbolic text with
    | ok p =>
        obtain ⟨hp, htext⟩ := ofSymbolic_eq_ok.mp h
        exact absurd htext.symm (hno p hp)
    | error fault => rw [literal_of_ofSymbolic h]

/-- All special bits, two of them without the bit to execute. -/
theorem ofSymbolic_inverse_special :
    (⟨0o7650⟩ : Permissions).Known ∧ (⟨0o7650⟩ : Permissions).symbolic = "rwSr-s--T"
      ∧ ofSymbolic "rwSr-s--T" = .ok ⟨0o7650⟩ := by
  have hknown : (⟨0o7650⟩ : Permissions).Known := by
    rw [Known]
    decide
  have hsymbolic : (⟨0o7650⟩ : Permissions).symbolic = "rwSr-s--T" := by decide
  obtain ⟨hread, -⟩ := ofSymbolic_inverse
  exact ⟨hknown, hsymbolic, (hread _ _ hknown).mpr hsymbolic.symm⟩

end Conformance.Permissions
