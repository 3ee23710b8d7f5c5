import Conformance.Proofs.Datum.Records
import Conformance.Proofs.Parcel.Crossing

/-!
# Parcels that are turned away

What is required of a parcel that native code hands over is a list, in the
order in which its fields are looked at (`RawParcel.requirements`). The
parcel is accepted exactly when all of it holds, and otherwise the first
requirement that does not hold is what is reported. One that was accepted
can be handed over again, and it is the same but for what a parcel does not
keep (`RawParcel.toParcel_exact`).

Each field has its own requirements and its own reader, which settles them
(`Settles`); and readers one after the other settle their requirements one
after the other (`Settles.bind`).
-/

namespace Conformance

/-! ## Requirements in order -/

/-- Something that is required of data at the boundary, and what is wrong
with data without it. -/
structure Requirement where
  /-- What is required. -/
  holds : Prop
  /-- What is wrong if it does not hold. -/
  fault : BoundaryFault

/-- The first requirement of a list that does not hold, by its fault. -/
inductive FirstUnmet : List Requirement → BoundaryFault → Prop
  | here {r : Requirement} {rs : List Requirement} (h : ¬ r.holds) : FirstUnmet (r :: rs) r.fault
  | next {r : Requirement} {rs : List Requirement} {fault : BoundaryFault} (h : r.holds)
    (rest : FirstUnmet rs fault) : FirstUnmet (r :: rs) fault

/-- A reading has a value only if all requirements hold, and otherwise the
fault of the first that does not. -/
def Settles {α : Type} (rs : List Requirement) : Except BoundaryFault α → Prop
  | .ok _ => ∀ r ∈ rs, r.holds
  | .error fault => FirstUnmet rs fault

namespace FirstUnmet

theorem not_all {rs : List Requirement} {fault : BoundaryFault} (h : FirstUnmet rs fault) :
    ¬ ∀ r ∈ rs, r.holds := by
  induction h with
  | here hr => exact fun hall => hr (hall _ (List.mem_cons_self ..))
  | next _ _ ih => exact fun hall => ih fun r hr => hall r (List.mem_cons_of_mem _ hr)

theorem append_right {rs : List Requirement} {fault : BoundaryFault} (h : FirstUnmet rs fault)
    (rs' : List Requirement) : FirstUnmet (rs ++ rs') fault := by
  induction h with
  | here hr => exact .here hr
  | next hr _ ih => exact .next hr ih

theorem append_left {rs' : List Requirement} {fault : BoundaryFault} :
    ∀ {rs : List Requirement}, (∀ r ∈ rs, r.holds) → FirstUnmet rs' fault →
      FirstUnmet (rs ++ rs') fault
  | [], _, h => h
  | r :: _, hall, h =>
      .next (hall r (List.mem_cons_self ..))
        (append_left (fun q hq => hall q (List.mem_cons_of_mem _ hq)) h)

end FirstUnmet

namespace Settles

variable {α β : Type} {rs : List Requirement} {x : Except BoundaryFault α}

theorem bind {rs' : List Requirement} {f : α → Except BoundaryFault β} (hx : Settles rs x)
    (hf : ∀ a, Settles rs' (f a)) : Settles (rs ++ rs') (x >>= f) := by
  cases x with
  | error fault => exact FirstUnmet.append_right hx rs'
  | ok a =>
      have hrest := hf a
      change Settles (rs ++ rs') (f a)
      cases hfa : f a with
      | error fault =>
          rw [hfa] at hrest
          exact FirstUnmet.append_left hx hrest
      | ok b =>
          rw [hfa] at hrest
          exact List.forall_mem_append.mpr ⟨hx, hrest⟩

theorem map (hx : Settles rs x) (f : α → β) : Settles rs (x >>= fun a => .ok (f a)) := by
  cases x with
  | error fault => exact hx
  | ok a => exact hx

theorem exists_ok_iff (h : Settles rs x) : (∃ a, x = .ok a) ↔ ∀ r ∈ rs, r.holds := by
  cases x with
  | error fault => exact ⟨fun ⟨a, ha⟩ => (nomatch ha), fun hall => absurd hall h.not_all⟩
  | ok a => exact ⟨fun _ => h, fun _ => ⟨a, rfl⟩⟩

end Settles

/-! ## Texts -/

namespace RawText

/-- A text has to be there, and to be UTF-8 up to its first zero byte. -/
def requirements (field : String) (t : RawText) : List Requirement :=
  [⟨t ≠ none, .missing field⟩,
    ⟨∀ bs, t = some bs → ∃ s, Utf8.encode s = cut bs, .notUtf8 field⟩]

theorem settles_read (field : String) (t : RawText) :
    Settles (requirements field t) (read field t) := by
  cases t with
  | none => exact .here fun h => h rfl
  | some bs =>
      unfold read
      dsimp only
      cases hdecode : Utf8.decode? (cut bs) with
      | none =>
          refine .next (by simp) (.here fun h => ?_)
          obtain ⟨s, hs⟩ := h bs rfl
          rw [Utf8.decode?_eq_some.mpr hs] at hdecode
          cases hdecode
      | some s =>
          refine List.forall_mem_cons.mpr ⟨by simp, List.forall_mem_singleton.mpr ?_⟩
          rintro _ ⟨⟩
          exact ⟨s, Utf8.decode?_eq_some.mp hdecode⟩

theorem zero_notMem_cut (bs : Bytes) : (0 : UInt8) ∉ cut bs := fun hzero => by
  simpa using List.all_eq_true.mp List.all_takeWhile 0 hzero

/-- A text that was read has no zero byte, so it can be written, up to where
it ended. -/
theorem write_of_read {field : String} {t : RawText} {s : String} (h : read field t = .ok s) :
    write field s = .ok (t.map cut) := by
  unfold read at h
  split at h
  · cases h
  · rename_i bs
    split at h
    · rename_i hdecode
      obtain rfl := Except.ok.inj h
      have hbytes := Utf8.decode?_eq_some.mp hdecode
      rw [write, hbytes, if_neg (by simpa using zero_notMem_cut bs)]
      rfl
    · cases h

end RawText

/-! ## The other fields -/

theorem Compression.ofCode?_eq_some {n : UInt32} {c : Compression} :
    ofCode? n = some c ↔ c.code = n := by
  constructor
  · intro h
    unfold ofCode? at h
    grind [code]
  · rintro rfl
    exact ofCode?_code c

namespace Instant

/-- The milliseconds that are in the range of instants. -/
def InRange (millis : Int) : Prop := firstSecond * 1000 ≤ millis ∧ millis < endSecond * 1000

theorem isSome_ofMillis? (m : Int) : (ofMillis? m).isSome ↔ InRange m := by
  have hseconds : m.fdiv 1000 = m / 1000 := Int.fdiv_eq_ediv_of_nonneg _ (by decide)
  unfold ofMillis? ofSeconds? InRange
  rw [hseconds]
  simp only [Option.isSome_ite, Bool.and_eq_true, decide_eq_true_eq]
  omega

theorem millis_of_ofMillis? {m : Int} {t : Instant} (h : ofMillis? m = some t) :
    t.millis = m := by
  unfold ofMillis? ofSeconds? at h
  split at h
  · rw [← Option.some.inj h]
    simp only [millis, Nat.mul_div_cancel _ (show 0 < 1000000 by decide)]
    rw [Int.fdiv_eq_ediv_of_nonneg _ (by decide), Int.fmod_eq_emod_of_nonneg _ (by decide)]
    omega
  · cases h

end Instant

/-- A block as it is handed over: an empty one is missing. -/
def RawBlock.normal : RawBlock → RawBlock
  | .bytes [] => .missing 0
  | block => block

namespace RawParcel

/-- The compression of a number. -/
def readCompression (code : UInt32) : Except BoundaryFault Compression :=
  (Compression.ofCode? code).elim (.error (.compression code)) .ok

/-- The time of a number of milliseconds. -/
def readTime (millis : Int64) : Except BoundaryFault Instant :=
  (Instant.ofMillis? millis.toInt).elim (.error (.time millis)) .ok

theorem settles_readCompression (code : UInt32) :
    Settles [⟨∃ c : Compression, c.code = code, .compression code⟩] (readCompression code) := by
  unfold readCompression
  cases hcode : Compression.ofCode? code with
  | none =>
      refine .here fun ⟨c, hc⟩ => ?_
      rw [Compression.ofCode?_eq_some.mpr hc] at hcode
      cases hcode
  | some c => exact List.forall_mem_singleton.mpr ⟨c, Compression.ofCode?_eq_some.mp hcode⟩

theorem code_of_readCompression {code : UInt32} {c : Compression}
    (h : readCompression code = .ok c) : c.code = code := by
  unfold readCompression at h
  cases hcode : Compression.ofCode? code with
  | none => simp [hcode] at h
  | some c' =>
      rw [hcode] at h
      obtain rfl := Except.ok.inj h
      exact Compression.ofCode?_eq_some.mp hcode

theorem settles_readTime (millis : Int64) :
    Settles [⟨Instant.InRange millis.toInt, .time millis⟩] (readTime millis) := by
  have hrange := Instant.isSome_ofMillis? millis.toInt
  unfold readTime
  cases htime : Instant.ofMillis? millis.toInt with
  | none =>
      rw [htime] at hrange
      exact .here fun h => (nomatch hrange.mpr h)
  | some t =>
      rw [htime] at hrange
      exact List.forall_mem_singleton.mpr (hrange.mp rfl)

theorem millis_of_readTime {millis : Int64} {t : Instant} (h : readTime millis = .ok t) :
    Int64.ofInt t.millis = millis := by
  unfold readTime at h
  cases htime : Instant.ofMillis? millis.toInt with
  | none => simp [htime] at h
  | some t' =>
      rw [htime] at h
      obtain rfl := Except.ok.inj h
      rw [Instant.millis_of_ofMillis? htime, Int64.ofInt_toInt]

theorem settles_readPayload (block : RawBlock) :
    Settles [⟨∀ n, block = .missing n → n = 0, .missing "payload"⟩] (readPayload block) := by
  unfold readPayload
  split
  · exact List.forall_mem_singleton.mpr (by simp)
  · exact List.forall_mem_singleton.mpr (by simp)
  · rename_i n hn
    exact .here fun h => hn (h n rfl ▸ rfl)

theorem packed_of_readPayload {block : RawBlock} {bs : Bytes} (h : readPayload block = .ok bs) :
    (if bs = [] then RawBlock.missing 0 else .bytes bs) = block.normal := by
  unfold readPayload at h
  split at h
  · obtain rfl := Except.ok.inj h
    rename_i content
    cases content <;> rfl
  · obtain rfl := Except.ok.inj h
    rfl
  · cases h

theorem settles_readGroup (disposition : UInt32) (id : UInt64) :
    Settles [⟨disposition ∈ [groupNone, groupPart, groupLast], .disposition disposition⟩]
      (readGroup disposition id) := by
  unfold readGroup
  split
  · exact List.forall_mem_singleton.mpr (by simp [*])
  · split
    · exact List.forall_mem_singleton.mpr (by simp [*])
    · split
      · exact List.forall_mem_singleton.mpr (by simp [*])
      · exact .here (by simp [*])

theorem groupFields_of_readGroup {disposition : UInt32} {id : UInt64} {g : Option Group}
    (h : readGroup disposition id = .ok g) :
    groupFields g = (disposition, if disposition = groupNone then 0 else id) := by
  unfold readGroup at h
  split at h
  · rename_i hnone
    obtain rfl := Except.ok.inj h
    rw [if_pos hnone, hnone]
    rfl
  · rename_i hnone
    rw [if_neg hnone]
    split at h
    · rename_i hpart
      obtain rfl := Except.ok.inj h
      rw [hpart]
      rfl
    · split at h
      · rename_i hlast
        obtain rfl := Except.ok.inj h
        rw [hlast]
        rfl
      · cases h

/-! ## Parcels -/

/-- What is required of a parcel at the boundary, in the order in which its
fields are looked at. -/
def requirements (raw : RawParcel) : List Requirement :=
  RawText.requirements "sender" raw.sender ++ (RawText.requirements "recipient" raw.recipient
    ++ (RawText.requirements "type" raw.type
    ++ [⟨∃ c : Compression, c.code = raw.compression, .compression raw.compression⟩,
      ⟨Instant.InRange raw.time.toInt, .time raw.time⟩,
      ⟨∀ n, raw.payload = .missing n → n = 0, .missing "payload"⟩,
      ⟨raw.disposition ∈ [groupNone, groupPart, groupLast], .disposition raw.disposition⟩]))

/-- A parcel at the boundary without what is not kept of it: what stands
behind the end of a text, the number of a group that it is not in, and where
an empty payload would be. -/
def normal (raw : RawParcel) : RawParcel :=
  { raw with
    sender := raw.sender.map RawText.cut
    recipient := raw.recipient.map RawText.cut
    type := raw.type.map RawText.cut
    group := if raw.disposition = groupNone then 0 else raw.group
    payload := raw.payload.normal }

/-- One reader after the other. -/
theorem toParcel_eq (raw : RawParcel) : raw.toParcel = do
    let sender ← RawText.read "sender" raw.sender
    let recipient ← RawText.read "recipient" raw.recipient
    let type ← RawText.read "type" raw.type
    let compression ← readCompression raw.compression
    let time ← readTime raw.time
    let payload ← readPayload raw.payload
    let group ← readGroup raw.disposition raw.group
    return ⟨time, sender, recipient, type, compression, ⟨raw.major, raw.minor⟩, group,
      payload⟩ := by
  unfold toParcel readCompression readTime
  cases Compression.ofCode? raw.compression <;> cases Instant.ofMillis? raw.time.toInt <;> rfl

theorem settles_toParcel (raw : RawParcel) : Settles raw.requirements raw.toParcel := by
  rw [toParcel_eq]
  refine (RawText.settles_read ..).bind fun sender => ?_
  refine (RawText.settles_read ..).bind fun recipient => ?_
  refine (RawText.settles_read ..).bind fun type => ?_
  refine (settles_readCompression _).bind fun compression => ?_
  refine (settles_readTime _).bind fun time => ?_
  refine (settles_readPayload _).bind fun payload => ?_
  exact (settles_readGroup ..).map _

/-- A parcel that was accepted is handed over as it was, but for what is not
kept of it. -/
theorem ofParcel_of_toParcel {raw : RawParcel} {p : Parcel} (h : raw.toParcel = .ok p) :
    ofParcel p = .ok raw.normal := by
  rw [toParcel_eq] at h
  obtain ⟨sender, hsender, h⟩ := Result.bind_eq_ok.mp h
  obtain ⟨recipient, hrecipient, h⟩ := Result.bind_eq_ok.mp h
  obtain ⟨type, htype, h⟩ := Result.bind_eq_ok.mp h
  obtain ⟨compression, hcompression, h⟩ := Result.bind_eq_ok.mp h
  obtain ⟨time, htime, h⟩ := Result.bind_eq_ok.mp h
  obtain ⟨payload, hpayload, h⟩ := Result.bind_eq_ok.mp h
  obtain ⟨group, hgroup, h⟩ := Result.bind_eq_ok.mp h
  obtain rfl := Except.ok.inj h
  have hfields := groupFields_of_readGroup hgroup
  unfold ofParcel
  simp only [RawText.write_of_read hsender, RawText.write_of_read hrecipient,
    RawText.write_of_read htype, code_of_readCompression hcompression, millis_of_readTime htime,
    packed_of_readPayload hpayload, hfields]
  rfl

/-- **Acceptance.** A parcel at the boundary is accepted exactly when all
that is required of it holds, and otherwise the first requirement that does
not hold is reported. What was accepted can be handed over again, and it is
the same field by field, but for what is not kept of it. -/
theorem toParcel_exact (raw : RawParcel) :
    ((∃ p, raw.toParcel = .ok p) ↔ ∀ r ∈ raw.requirements, r.holds)
      ∧ match raw.toParcel with
        | .ok p => ofParcel p = .ok raw.normal
        | .error fault => FirstUnmet raw.requirements fault := by
  have hsettles := settles_toParcel raw
  refine ⟨hsettles.exists_ok_iff, ?_⟩
  cases h : raw.toParcel with
  | ok p => exact ofParcel_of_toParcel h
  | error fault =>
      rw [h] at hsettles
      exact hsettles

/-- The type comes before the compression, which is unknown as well. -/
example : ({ time := 0, sender := some [112, 0, 255], recipient := some [104], type := some [255]
             compression := 9, major := 0, minor := 0, disposition := 7, group := 0
             payload := .missing 1 } : RawParcel).toParcel = .error (.notUtf8 "type") := by
  cbv

end RawParcel

end Conformance
