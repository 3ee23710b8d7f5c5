import Conformance.Parcel.Raw
import Conformance.Proofs.Text.Utf8

/-!
# Parcels that cross the boundary

A parcel crosses the boundary to native code unless one of its texts has
a zero character, and then the first such text is named. Of a parcel that
crosses nothing is lost but the part of its time below a millisecond
(`toParcel_ofParcel`).

Each field has its own way across and back: a text is cut at its first
zero byte, of which it has none (`read_write`), a missing payload stands
for the empty one (`readPayload_packed`), two numbers for the membership
in a group (`readGroup_groupFields`), and a number of milliseconds for
the time (`ofMillis?_millis`).
-/

namespace Conformance

/-! ## Times -/

namespace Instant

/-- The nanoseconds since 1970. -/
def sinceEpoch (t : Instant) : Int := t.seconds * 1000000000 + t.nanos

/-- An instant in range that is in no leap second. -/
structure Regular (t : Instant) : Prop where
  first : firstSecond ≤ t.seconds
  last : t.seconds < endSecond
  nanos : t.nanos < 1000000000

/-- The instant without the part of its second below a millisecond. -/
def wholeMillis (t : Instant) : Instant := ⟨t.seconds, t.nanos / 1000000 * 1000000⟩

/-- Also before 1970 the part is taken off towards the past. -/
theorem sinceEpoch_wholeMillis (t : Instant) :
    t.wholeMillis.sinceEpoch = t.sinceEpoch.fdiv 1000000 * 1000000 := by
  rw [Int.fdiv_eq_ediv_of_nonneg _ (by decide)]
  simp only [sinceEpoch, wholeMillis]
  omega

theorem wholeMillis_of_whole {t : Instant} (h : t.sinceEpoch.fmod 1000000 = 0) :
    t.wholeMillis = t := by
  obtain ⟨seconds, nanos⟩ := t
  rw [Int.fmod_eq_emod_of_nonneg _ (by decide)] at h
  simp only [sinceEpoch] at h
  simp only [wholeMillis, mk.injEq, true_and]
  omega

/-- The milliseconds of a regular instant fit into 64 bits. -/
theorem Regular.toInt_millis {t : Instant} (h : t.Regular) :
    (Int64.ofInt t.millis).toInt = t.millis := by
  obtain ⟨hfirst, hlast, hnanos⟩ := h
  have hlow : firstSecond = -8334601228800 := by decide
  have hhigh : endSecond = 8210266876800 := by decide
  apply Int64.toInt_ofInt_of_le <;> simp only [millis] <;> omega

theorem ofMillis?_millis {t : Instant} (h : t.Regular) :
    ofMillis? t.millis = some t.wholeMillis := by
  obtain ⟨hfirst, hlast, hnanos⟩ := h
  have hseconds : t.millis.fdiv 1000 = t.seconds := by
    rw [Int.fdiv_eq_ediv_of_nonneg _ (by decide)]
    simp only [millis]
    omega
  have hrest : (t.millis.fmod 1000).toNat = t.nanos / 1000000 := by
    rw [Int.fmod_eq_emod_of_nonneg _ (by decide)]
    simp only [millis]
    omega
  rw [ofMillis?, hseconds, hrest, ofSeconds?, if_pos (by simp [hfirst, hlast])]
  rfl

end Instant

/-! ## The other fields -/

namespace RawText

theorem cut_encode {s : String} (h : '\x00' ∉ s.toList) : cut (Utf8.encode s) = Utf8.encode s := by
  have hbytes : ∀ b ∈ Utf8.encode s, decide (b ≠ 0) = true := by
    intro b hb
    have hzero : b ≠ 0 := by
      rintro rfl
      exact h (Utf8.zero_mem_encode.mp hb)
    exact decide_eq_true hzero
  have hkept : (Utf8.encode s ++ []).takeWhile (fun b => decide (b ≠ 0)) = Utf8.encode s ++ [] :=
    List.takeWhile_append_of_pos hbytes
  simpa [cut] using hkept

theorem write_of_nul {s : String} (h : '\x00' ∈ s.toList) (field : String) :
    write field s = .error (.interiorNul field) := by
  rw [write, if_pos (by simpa using Utf8.zero_mem_encode.mpr h)]

theorem write_of_no_nul {s : String} (h : '\x00' ∉ s.toList) (field : String) :
    write field s = .ok (some (Utf8.encode s)) := by
  rw [write, if_neg (by simpa using fun hzero => h (Utf8.zero_mem_encode.mp hzero))]

theorem read_write {s : String} (h : '\x00' ∉ s.toList) (field : String) :
    read field (some (Utf8.encode s)) = .ok s := by
  rw [read, cut_encode h, Utf8.decode?_encode]

end RawText

theorem Compression.ofCode?_code (c : Compression) : ofCode? c.code = some c := by
  cases c <;> rfl

namespace RawParcel

theorem readGroup_groupFields (g : Option Group) :
    readGroup (groupFields g).1 (groupFields g).2 = .ok g := by
  rcases g with _ | ⟨id, disposition⟩
  · rfl
  · cases disposition <;> rfl

theorem readPayload_packed (bs : Bytes) :
    readPayload (if bs = [] then .missing 0 else .bytes bs) = .ok bs := by
  split
  · rename_i hnil
    rw [hnil]
    rfl
  · rfl

end RawParcel

/-! ## Parcels -/

/-- The texts of a parcel with the names of their fields, in the order in
which they are handed over. -/
def Parcel.texts (p : Parcel) : List (String × String) :=
  [("sender", p.sender), ("recipient", p.recipient), ("type", p.type)]

/-- The first text of a parcel that has a zero character, with the name of
its field. -/
def Parcel.nulText? (p : Parcel) : Option (String × String) :=
  p.texts.find? fun t => decide ('\x00' ∈ t.2.toList)

namespace RawParcel

theorem ofParcel_of_nul {p : Parcel} {field text : String} (h : p.nulText? = some (field, text)) :
    ofParcel p = .error (.interiorNul field) := by
  unfold Parcel.nulText? Parcel.texts at h
  unfold ofParcel
  by_cases hsender : '\x00' ∈ p.sender.toList
  · simp only [List.find?_cons, hsender, decide_true, Option.some.injEq, Prod.mk.injEq] at h
    rw [RawText.write_of_nul hsender, ← h.1]
    rfl
  · rw [RawText.write_of_no_nul hsender]
    by_cases hrecipient : '\x00' ∈ p.recipient.toList
    · simp only [List.find?_cons, hsender, hrecipient, decide_true, decide_false,
        Option.some.injEq, Prod.mk.injEq] at h
      rw [RawText.write_of_nul hrecipient, ← h.1]
      rfl
    · rw [RawText.write_of_no_nul hrecipient]
      by_cases htype : '\x00' ∈ p.type.toList
      · simp only [List.find?_cons, hsender, hrecipient, htype, decide_true, decide_false,
          Option.some.injEq, Prod.mk.injEq] at h
        rw [RawText.write_of_nul htype, ← h.1]
        rfl
      · simp [hsender, hrecipient, htype] at h

theorem no_nul_of_nulText? {p : Parcel} (h : p.nulText? = none) :
    '\x00' ∉ p.sender.toList ∧ '\x00' ∉ p.recipient.toList ∧ '\x00' ∉ p.type.toList := by
  simpa [Parcel.nulText?, Parcel.texts] using h

/-- A parcel as it is handed over where none of its texts has a zero
character. -/
def packed (p : Parcel) : RawParcel where
  time := Int64.ofInt p.time.millis
  sender := some (Utf8.encode p.sender)
  recipient := some (Utf8.encode p.recipient)
  type := some (Utf8.encode p.type)
  compression := p.compression.code
  major := p.sequence.major
  minor := p.sequence.minor
  disposition := (groupFields p.group).1
  group := (groupFields p.group).2
  payload := if p.payload = [] then .missing 0 else .bytes p.payload

theorem ofParcel_of_no_nul {p : Parcel} (h : p.nulText? = none) : ofParcel p = .ok (packed p) := by
  obtain ⟨hsender, hrecipient, htype⟩ := no_nul_of_nulText? h
  unfold ofParcel
  rw [RawText.write_of_no_nul hsender, RawText.write_of_no_nul hrecipient,
    RawText.write_of_no_nul htype]
  rfl

/-- Every field comes back, and the time by its whole milliseconds. -/
theorem toParcel_packed {p : Parcel} (ht : p.time.Regular) (h : p.nulText? = none) :
    (packed p).toParcel = .ok { p with time := p.time.wholeMillis } := by
  obtain ⟨hsender, hrecipient, htype⟩ := no_nul_of_nulText? h
  have htime : Instant.ofMillis? (Int64.ofInt p.time.millis).toInt = some p.time.wholeMillis := by
    rw [ht.toInt_millis, Instant.ofMillis?_millis ht]
  simp only [toParcel, packed, RawText.read_write hsender, RawText.read_write hrecipient,
    RawText.read_write htype, Compression.ofCode?_code, htime, readPayload_packed,
    readGroup_groupFields, bind, Except.bind, pure, Except.pure]

/-- **Crossing.** Handing a parcel over fails exactly when one of its texts
has a zero character, and names the first such text. Otherwise the other
side gets the parcel with its time rounded down to a millisecond, and so
the parcel itself if its time is one of whole milliseconds. -/
theorem toParcel_ofParcel (p : Parcel) (ht : p.time.Regular) :
    match p.nulText? with
    | some (field, _) => ofParcel p = .error (.interiorNul field)
    | none => ∃ raw, ofParcel p = .ok raw
        ∧ raw.toParcel = .ok { p with time := p.time.wholeMillis }
        ∧ p.time.wholeMillis.sinceEpoch = p.time.sinceEpoch.fdiv 1000000 * 1000000
        ∧ (p.time.sinceEpoch.fmod 1000000 = 0 → raw.toParcel = .ok p) := by
  cases hnul : p.nulText? with
  | some t => exact ofParcel_of_nul hnul
  | none =>
      have hback := toParcel_packed ht hnul
      refine ⟨packed p, ofParcel_of_no_nul hnul, hback, p.time.sinceEpoch_wholeMillis,
        fun hwhole => ?_⟩
      rw [hback, Instant.wholeMillis_of_whole hwhole]

theorem toParcel_ofParcel_before1970 :
    let p : Parcel := {
      time := ⟨-2, 999999999⟩, sender := "watcher", recipient := "höst", type := "event"
      compression := .zstd, sequence := ⟨18446744073709551615, 0⟩, group := some ⟨7, .last⟩
      payload := [] }
    p.time.Regular ∧ ∃ raw, ofParcel p = .ok raw
      ∧ raw.toParcel = .ok { p with time := ⟨-2, 999000000⟩ } := by
  intro p
  have ht : p.time.Regular := ⟨by decide, by decide, by decide⟩
  have hnul : p.nulText? = none := by decide
  have htime : p.time.wholeMillis = ⟨-2, 999000000⟩ := by decide
  have hcross := toParcel_ofParcel p ht
  rw [hnul, htime] at hcross
  obtain ⟨raw, hto, hback, -⟩ := hcross
  exact ⟨ht, raw, hto, hback⟩

end RawParcel

end Conformance
