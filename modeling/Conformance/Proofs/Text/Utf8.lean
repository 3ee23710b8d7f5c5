import Conformance.Text.Utf8

/-!
# The bytes of a text

The bytes of a text read as that text, and a zero among them is the zero
character: all bytes of any other character have a bit set.

Where something is run on a fixed text, `cbv` takes the text apart by
equations for byte arrays that only Mathlib as a whole brings along, so
the modules with such runs import all of it.
-/

namespace Conformance.Utf8

open String (utf8EncodeChar)

theorem decode?_encode (s : String) : decode? (encode s) = some s := by
  have hbytes : (⟨(encode s).toArray⟩ : ByteArray) = s.toByteArray := by simp [encode]
  unfold decode? String.fromUTF8?
  rw [hbytes, dif_pos s.isValidUTF8]
  rfl

/-- Bytes are read as the text that they are the bytes of, if there is one. -/
theorem decode?_eq_some {bs : Bytes} {s : String} : decode? bs = some s ↔ encode s = bs := by
  constructor
  · intro h
    unfold decode? String.fromUTF8? at h
    split at h
    · rw [← Option.some.inj h]
      rfl
    · cases h
  · rintro rfl
    exact decode?_encode s

/-- Bytes are the encoding of one text at most. -/
theorem encode_inj {s t : String} (h : encode s = encode t) : s = t := by
  have hsame := congrArg decode? h
  rw [decode?_encode, decode?_encode] at hsame
  exact Option.some.inj hsame

theorem encode_eq_flatMap (s : String) : encode s = s.toList.flatMap utf8EncodeChar := by
  conv => lhs; rw [← String.ofList_toList (s := s)]
  unfold encode
  rw [String.toByteArray_ofList, List.utf8Encode]
  simp

theorem zero_mem_utf8EncodeChar {c : Char} : (0 : UInt8) ∈ utf8EncodeChar c ↔ c = '\x00' := by
  have hzero : c = '\x00' ↔ c.val.toNat = 0 := by
    rw [Char.ext_iff, ← UInt32.toNat_inj]
    rfl
  rw [hzero]
  unfold utf8EncodeChar
  dsimp only
  -- One case for each number of bytes.
  split
  · simp only [List.mem_singleton, ← UInt8.toNat_inj, UInt8.toNat_ofNat', UInt8.toNat_zero]
    omega
  · split
    · simp only [List.mem_cons, List.not_mem_nil, or_false, ← UInt8.toNat_inj,
        UInt8.toNat_ofNat', UInt8.toNat_zero]
      omega
    · split <;>
        simp only [List.mem_cons, List.not_mem_nil, or_false, ← UInt8.toNat_inj,
          UInt8.toNat_ofNat', UInt8.toNat_zero] <;>
        omega

theorem zero_mem_encode {s : String} : (0 : UInt8) ∈ encode s ↔ '\x00' ∈ s.toList := by
  rw [encode_eq_flatMap, List.mem_flatMap]
  constructor
  · rintro ⟨c, hc, hzero⟩
    rwa [zero_mem_utf8EncodeChar.mp hzero] at hc
  · exact fun hmem => ⟨_, hmem, zero_mem_utf8EncodeChar.mpr rfl⟩

end Conformance.Utf8
