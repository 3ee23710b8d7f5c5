import Conformance.Acl.Attribute
import Conformance.Proofs.Datum.Records

/-!
# The stored form of an access control list, both ways

The bytes behind the version of a stored list are records of three numbers
each (`records`), and reading keeps of a record what `Record.stored?` says:
so a list is accepted by its length, its version and its tags, and its
entries come in the order of the records (`decode_eq_ok`).

Each direction brings numbers into a normal form. Reading drops the id of
an entry that may not name anybody and all but three bits of what it
permits; so what was read is stored as the same bytes only if nothing was
there to be dropped (`encode_eq_iff`). Writing takes entries of any sort,
and what is read of them is what `kept` says (`decode_encode`).
-/

namespace Conformance.Acl

/-! ## Numbers in bytes -/

theorem number16_bytes {n : Nat} (hn : n < 65536) :
    number16 (UInt8.ofNat n) (UInt8.ofNat (n / 256)) = n := by
  simp only [number16, UInt8.toNat_ofNat']
  omega

theorem number32_bytes {n : Nat} (hn : n < 4294967296) :
    number32 (UInt8.ofNat n) (UInt8.ofNat (n / 256)) (UInt8.ofNat (n / 65536))
      (UInt8.ofNat (n / 65536 / 256)) = n := by
  simp only [number32, number16, UInt8.toNat_ofNat']
  omega

theorem number16_lt (a b : UInt8) : number16 a b < 65536 := by
  have ha := a.toNat_lt
  have hb := b.toNat_lt
  unfold number16
  omega

theorem number32_le (a b c d : UInt8) : number32 a b c d ≤ undefinedId := by
  have hlow := number16_lt a b
  have hhigh := number16_lt c d
  unfold number32 undefinedId
  omega

theorem bytes16_number16 (a b : UInt8) : bytes16 (number16 a b) = [a, b] := by
  have ha := a.toNat_lt
  have hlow : UInt8.ofNat (number16 a b) = a := by
    rw [← UInt8.toNat_inj, UInt8.toNat_ofNat']
    unfold number16
    omega
  have hhigh : number16 a b / 256 = b.toNat := by
    unfold number16
    omega
  rw [bytes16, hlow, hhigh, UInt8.ofNat_toNat]

/-- Two bytes keep no more of a number than its rest. -/
theorem bytes16_add (n m : Nat) : bytes16 (n + 65536 * m) = bytes16 n := by
  simp only [bytes16, List.cons.injEq, and_true, ← UInt8.toNat_inj, UInt8.toNat_ofNat']
  constructor <;> omega

theorem bytes32_number32 (a b c d : UInt8) : bytes32 (number32 a b c d) = [a, b, c, d] := by
  have hlow := number16_lt a b
  have hhigh : number32 a b c d / 65536 = number16 c d := by
    unfold number32
    omega
  rw [bytes32, hhigh, number32, bytes16_add, bytes16_number16, bytes16_number16]
  rfl

theorem bytes16_inj {n m : Nat} (hn : n < 65536) (hm : m < 65536) :
    bytes16 n = bytes16 m ↔ n = m := by
  refine ⟨fun h => ?_, congrArg bytes16⟩
  simp only [bytes16, List.cons.injEq, and_true] at h
  rw [← number16_bytes hn, h.1, h.2, number16_bytes hm]

theorem bytes32_inj {n m : Nat} (hn : n ≤ undefinedId) (hm : m ≤ undefinedId) :
    bytes32 n = bytes32 m ↔ n = m := by
  refine ⟨fun h => ?_, congrArg bytes32⟩
  have hlt : undefinedId < 4294967296 := by decide
  simp only [bytes32, bytes16, List.cons_append, List.nil_append, List.cons.injEq, and_true] at h
  rw [← number32_bytes (Nat.lt_of_le_of_lt hn hlt), h.1, h.2.1, h.2.2.1, h.2.2.2,
    number32_bytes (Nat.lt_of_le_of_lt hm hlt)]

/-! ## Tags -/

/-- The numbers of the tags. -/
def tagCodes : List Nat := [0x01, 0x02, 0x04, 0x08, 0x10, 0x20]

theorem ofTagCode?_tagCode (tag : AclTag) : ofTagCode? (tagCode tag) = some tag := by
  cases tag <;> rfl

theorem tagCode_lt (tag : AclTag) : tagCode tag < 65536 := by
  cases tag <;> decide

theorem ofTagCode?_eq_some {n : Nat} {tag : AclTag} :
    ofTagCode? n = some tag ↔ n = tagCode tag := by
  constructor
  · intro h
    unfold ofTagCode? at h
    grind [tagCode]
  · rintro rfl
    exact ofTagCode?_tagCode tag

theorem isSome_ofTagCode? (n : Nat) : (ofTagCode? n).isSome ↔ n ∈ tagCodes := by
  unfold ofTagCode? tagCodes
  grind

/-! ## Records -/

/-- The three numbers of an entry as it is stored. -/
structure Record where
  /-- The number of the tag, in two bytes. -/
  tag : Nat
  /-- The permissions, in two bytes. -/
  perms : Nat
  /-- The id, in four bytes. -/
  id : Nat
  deriving Repr, DecidableEq

/-- The records in bytes, eight bytes for each. -/
def records : Bytes → List Record
  | t₀ :: t₁ :: p₀ :: p₁ :: i₀ :: i₁ :: i₂ :: i₃ :: r =>
    ⟨number16 t₀ t₁, number16 p₀ p₁, number32 i₀ i₁ i₂ i₃⟩ :: records r
  | _ => []

namespace Record

/-- The bytes of a record. -/
def bytes (r : Record) : Bytes := bytes16 r.tag ++ bytes16 r.perms ++ bytes32 r.id

/-- The entry of a record whose tag is known: it names somebody if it may
and its id is one, and it permits what the three lowest bits say. -/
def stored? (r : Record) : Option StoredEntry :=
  (ofTagCode? r.tag).map fun tag =>
    ⟨tag, if tag.isQualified && r.id ≠ undefinedId then some r.id else none, .ofLowBits r.perms⟩

/-- Nothing is dropped of a record: one that may not name anybody has the
undefined id, and it has no bits but those of the three permissions. -/
structure Canonical (r : Record) : Prop where
  id : ∀ tag, r.tag = tagCode tag → tag.isQualified = false → r.id = undefinedId
  perms : r.perms ≤ 7

end Record

/-- The numbers of a record are those of its bytes. -/
structure Record.Fits (r : Record) : Prop where
  tag : r.tag < 65536
  perms : r.perms < 65536
  id : r.id ≤ undefinedId

theorem fits_of_mem_records (raw : Bytes) : ∀ r ∈ records raw, r.Fits := by
  fun_induction records raw with
  | case1 t₀ t₁ p₀ p₁ i₀ i₁ i₂ i₃ rest ih =>
      refine List.forall_mem_cons.mpr ⟨⟨number16_lt .., number16_lt .., number32_le ..⟩, ih⟩
  | case2 => simp

theorem ofLowBits_number16 (a b : UInt8) :
    AclPerms.ofLowBits (number16 a b) = AclPerms.ofLowBits a.toNat := by
  have hrest : number16 a b % 8 = a.toNat % 8 := by
    unfold number16
    omega
  rw [AclPerms.ofLowBits, AclPerms.ofLowBits, hrest]

theorem exists_record : ∀ {raw : Bytes}, 8 ≤ raw.length →
    ∃ t₀ t₁ p₀ p₁ i₀ i₁ i₂ i₃ r, raw = t₀ :: t₁ :: p₀ :: p₁ :: i₀ :: i₁ :: i₂ :: i₃ :: r
  | t₀ :: t₁ :: p₀ :: p₁ :: i₀ :: i₁ :: i₂ :: i₃ :: r, _ =>
      ⟨t₀, t₁, p₀, p₁, i₀, i₁, i₂, i₃, r, rfl⟩
  | [], h | [_], h | [_, _], h | [_, _, _], h | [_, _, _, _], h | [_, _, _, _, _], h
  | [_, _, _, _, _, _], h | [_, _, _, _, _, _, _], h => absurd h (by simp)

theorem length_records {raw : Bytes} (h : 8 ∣ raw.length) :
    raw.length = 8 * (records raw).length := by
  fun_induction records raw with
  | case1 t₀ t₁ p₀ p₁ i₀ i₁ i₂ i₃ rest ih =>
      simp only [List.length_cons] at h ⊢
      have hrest := ih (by omega)
      omega
  | case2 raw hrecord =>
      by_cases hlong : 8 ≤ raw.length
      · obtain ⟨_, _, _, _, _, _, _, _, _, hraw⟩ := exists_record hlong
        exact absurd hraw (hrecord _ _ _ _ _ _ _ _ _)
      · simp only [List.length_nil]
        omega

theorem bytes_records {raw : Bytes} (h : 8 ∣ raw.length) :
    (records raw).flatMap Record.bytes = raw := by
  fun_induction records raw with
  | case1 t₀ t₁ p₀ p₁ i₀ i₁ i₂ i₃ rest ih =>
      have hrest := ih (by simp only [List.length_cons] at h; omega)
      rw [List.flatMap_cons, hrest]
      simp [Record.bytes, bytes16_number16, bytes32_number32]
  | case2 raw hrecord =>
      by_cases hlong : 8 ≤ raw.length
      · obtain ⟨_, _, _, _, _, _, _, _, _, hraw⟩ := exists_record hlong
        exact absurd hraw (hrecord _ _ _ _ _ _ _ _ _)
      · obtain rfl : raw = [] := List.length_eq_zero_iff.mp (by omega)
        rfl

/-- Bytes are read as entries exactly when they are records with known tags,
and the entries are those of the records. -/
theorem decodeEntries_eq_ok {raw : Bytes} : ∀ {es : List StoredEntry},
    decodeEntries raw = .ok es ↔
      8 ∣ raw.length ∧ (records raw).map Record.stored? = es.map some := by
  fun_induction decodeEntries raw with
  | case1 t₀ t₁ p₀ p₁ i₀ i₁ i₂ i₃ r htag =>
      intro es
      refine iff_of_false (by simp) fun ⟨_, h⟩ => ?_
      cases es <;> simp [records, Record.stored?, htag] at h
  | case2 t₀ t₁ p₀ p₁ i₀ i₁ i₂ i₃ r tag htag =>
      rename_i ih
      intro es
      have hlength : 8 ∣ (t₀ :: t₁ :: p₀ :: p₁ :: i₀ :: i₁ :: i₂ :: i₃ :: r).length
          ↔ 8 ∣ r.length := by
        simp only [List.length_cons]
        omega
      rw [Result.map_eq_ok, hlength, records, List.map_cons, Record.stored?, htag, Option.map_some,
        ofLowBits_number16]
      constructor
      · rintro ⟨rest, hrest, rfl⟩
        obtain ⟨hdvd, hentries⟩ := ih.mp hrest
        exact ⟨hdvd, congrArg _ hentries⟩
      · rintro ⟨hdvd, hentries⟩
        cases es with
        | nil => cases hentries
        | cons e es =>
            obtain ⟨he, hrest⟩ := List.cons.inj hentries
            exact ⟨es, ih.mpr ⟨hdvd, hrest⟩, congrArg (· :: es) (Option.some.inj he)⟩
  | case3 =>
      intro es
      cases es <;> simp [records]
  | case4 raw hrecord hnil =>
      intro es
      refine iff_of_false (by simp) fun ⟨hdvd, _⟩ => ?_
      obtain ⟨_, _, _, _, _, _, _, _, _, hraw⟩ :=
        exists_record (Nat.le_of_dvd (List.length_pos_iff.mpr hnil) hdvd)
      exact hrecord _ _ _ _ _ _ _ _ _ hraw

/-- **Reading.** Bytes are a stored list exactly when they are as long as
the version and some records, begin with the version, and every record has
a known tag; the entries are then those of the records, in order. -/
theorem decode_eq_ok {raw : Bytes} {es : List StoredEntry} :
    decode raw = .ok es ↔ (∃ n, raw.length = 4 + 8 * n) ∧ raw.take 4 = bytes32 version
      ∧ (records (raw.drop 4)).map Record.stored? = es.map some := by
  unfold decode
  split
  · rename_i hlength
    simp only [Bool.or_eq_true, decide_eq_true_eq, ne_eq] at hlength
    refine iff_of_false (by simp) fun ⟨⟨n, hn⟩, _⟩ => ?_
    omega
  · rename_i hlength
    simp only [Bool.or_eq_true, decide_eq_true_eq, ne_eq, not_or, Decidable.not_not] at hlength
    split
    · rename_i a b c d r
      have hversion : number32 a b c d = version ↔ [a, b, c, d] = bytes32 version := by
        rw [← bytes32_number32, bytes32_inj (number32_le ..) (by decide)]
      have hsize : (∃ n, (a :: b :: c :: d :: r).length = 4 + 8 * n) ↔ 8 ∣ r.length := by
        simp only [List.length_cons, Dvd.dvd]
        exact exists_congr fun n => by omega
      rw [hsize]
      simp only [List.take_succ_cons, List.take_zero, List.drop_succ_cons, List.drop_zero]
      rw [← hversion]
      split
      · rename_i hv
        simp only [hv, true_and]
        exact decodeEntries_eq_ok
      · rename_i hv
        simp [hv]
    · rename_i hshort
      match raw, hlength.1 with
      | [], h | [_], h | [_, _], h | [_, _, _], h => exact absurd (by simp) h
      | a :: b :: c :: d :: r, _ => exact absurd rfl (hshort a b c d r)

theorem exists_map_some_iff {α β : Type} {f : α → Option β} : ∀ {as : List α},
    (∃ bs : List β, as.map f = bs.map some) ↔ ∀ a ∈ as, (f a).isSome
  | [] => iff_of_true ⟨[], rfl⟩ (by simp)
  | a :: as => by
      rw [List.forall_mem_cons, ← exists_map_some_iff, Option.isSome_iff_exists]
      constructor
      · rintro ⟨_ | ⟨b, bs⟩, h⟩
        · cases h
        · obtain ⟨hb, hbs⟩ := List.cons.inj h
          exact ⟨⟨b, hb⟩, bs, hbs⟩
      · rintro ⟨⟨b, hb⟩, bs, hbs⟩
        exact ⟨b :: bs, by rw [List.map_cons, hb, hbs, List.map_cons]⟩

/-- What is accepted is known by its length, its version and its tags. -/
theorem exists_decode_iff (raw : Bytes) :
    (∃ es, decode raw = .ok es) ↔ (∃ n, raw.length = 4 + 8 * n) ∧ raw.take 4 = bytes32 version
      ∧ ∀ r ∈ records (raw.drop 4), r.tag ∈ tagCodes := by
  have hknown : ∀ r : Record, r.stored?.isSome ↔ r.tag ∈ tagCodes := fun r => by
    rw [Record.stored?, Option.isSome_map, isSome_ofTagCode?]
  simp only [decode_eq_ok, exists_and_left, exists_map_some_iff, hknown]

theorem length_of_decode {raw : Bytes} {es : List StoredEntry} (h : decode raw = .ok es) :
    raw.length = 4 + 8 * es.length := by
  obtain ⟨⟨n, hn⟩, -, hentries⟩ := decode_eq_ok.mp h
  have hbody : (raw.drop 4).length = 8 * n := by rw [List.length_drop]; omega
  have hrecords := length_records ⟨n, hbody⟩
  have hlength : (records (raw.drop 4)).length = es.length := by
    simpa using congrArg List.length hentries
  omega

/-! ## Storing what was read -/

/-- An entry without the name of its id. -/
def storedOf (e : AclEntry) : StoredEntry := ⟨e.tag, e.qualifier.map (·.id), e.perms⟩

/-- The eight bytes of an entry before names are looked up. -/
def storedBytes (s : StoredEntry) : Bytes :=
  bytes16 (tagCode s.tag) ++ bytes16 s.perms.bits.toNat ++ bytes32 (s.id.getD undefinedId)

theorem ofLowBits_toNat (n : Nat) : (AclPerms.ofLowBits n).bits.toNat = n % 8 := by
  simp only [AclPerms.ofLowBits, UInt8.toNat_ofNat']
  omega

theorem append_eq_iff {a b c d : Bytes} (h : a.length = c.length) :
    a ++ b = c ++ d ↔ a = c ∧ b = d :=
  ⟨fun heq => List.append_inj heq h, fun ⟨hleft, hright⟩ => by rw [hleft, hright]⟩

/-- The bytes of a record are written again exactly when nothing was dropped
of it. -/
theorem Record.storedBytes_eq_iff {r : Record} (hr : r.Fits) {s : StoredEntry}
    (h : r.stored? = some s) : storedBytes s = r.bytes ↔ r.Canonical := by
  obtain ⟨tag, htag, rfl⟩ := Option.map_eq_some_iff.mp h
  obtain ⟨code, perms, id⟩ := r
  obtain rfl : code = tagCode tag := ofTagCode?_eq_some.mp htag
  obtain ⟨-, hlt, hle⟩ : _ ∧ perms < 65536 ∧ id ≤ undefinedId := ⟨hr.tag, hr.perms, hr.id⟩
  have hperms : bytes16 (AclPerms.ofLowBits perms).bits.toNat = bytes16 perms ↔ perms ≤ 7 := by
    rw [ofLowBits_toNat, bytes16_inj (by omega) hlt]
    omega
  have hid : bytes32 ((if tag.isQualified && id ≠ undefinedId then some id else none).getD
      undefinedId) = bytes32 id ↔ (tag.isQualified = false → id = undefinedId) := by
    rw [bytes32_inj (by split <;> simp [hle]) hle]
    cases tag.isQualified <;> by_cases hundefined : id = undefinedId <;>
      simp [hundefined, eq_comm]
  simp only [storedBytes, Record.bytes]
  rw [append_eq_iff (by rfl), append_eq_iff (by rfl), hperms, hid]
  constructor
  · rintro ⟨⟨-, hp⟩, hi⟩
    refine ⟨fun tag' htag' => ?_, hp⟩
    obtain rfl : tag = tag' := by
      have hboth := (ofTagCode?_tagCode tag).symm.trans (congrArg ofTagCode? htag')
      rw [ofTagCode?_tagCode] at hboth
      exact Option.some.inj hboth
    exact hi
  · exact fun hc => ⟨⟨rfl, hc.perms⟩, hc.id tag rfl⟩

theorem flatMap_storedBytes_eq_iff : ∀ {rs : List Record} {ss : List StoredEntry},
    (∀ r ∈ rs, r.Fits) → rs.map Record.stored? = ss.map some →
      (ss.flatMap storedBytes = rs.flatMap Record.bytes ↔ ∀ r ∈ rs, r.Canonical)
  | [], [], _, _ => by simp
  | r :: rs, s :: ss, hfits, h => by
      obtain ⟨hhead, hrest⟩ := List.cons.inj h
      obtain ⟨hr, hrs⟩ := List.forall_mem_cons.mp hfits
      rw [List.flatMap_cons, List.flatMap_cons, append_eq_iff (by rfl),
        Record.storedBytes_eq_iff hr hhead, flatMap_storedBytes_eq_iff hrs hrest,
        List.forall_mem_cons]

/-- Names are added to entries, and nothing else happens to them. -/
theorem storedOf_of_resolveEntry {names : NameService} {s : StoredEntry} {e : AclEntry}
    (h : resolveEntry names s = .ok e) : storedOf e = s := by
  obtain ⟨tag, id, perms⟩ := s
  unfold resolveEntry at h
  split at h
  · rename_i hid
    obtain rfl := Except.ok.inj h
    exact congrArg (StoredEntry.mk tag · perms) hid.symm
  · rename_i id hid
    split at h
    · cases h
    · cases h
    · obtain rfl := Except.ok.inj h
      exact congrArg (StoredEntry.mk tag · perms) hid.symm

theorem map_storedOf_of_resolve {names : NameService} : ∀ {stored : List StoredEntry}
    {es : List AclEntry}, resolve names stored = .ok es → es.map storedOf = stored
  | [], _, h => by
      obtain rfl := Except.ok.inj h
      rfl
  | s :: r, es, h => by
      rw [resolve] at h
      cases hentry : resolveEntry names s with
      | error fault => simp [hentry] at h
      | ok e =>
          rw [hentry] at h
          obtain ⟨rest, hrest, rfl⟩ := Result.map_eq_ok.mp h
          rw [List.map_cons, storedOf_of_resolveEntry hentry, map_storedOf_of_resolve hrest]

/-- **The same bytes.** What was read is stored as the bytes it was read
from exactly when nothing was dropped of any record. -/
theorem encode_eq_iff {names : NameService} {raw : Bytes} {stored : List StoredEntry}
    {es : List AclEntry} (hdecode : decode raw = .ok stored)
    (hresolve : resolve names stored = .ok es) :
    encode es = raw ↔ ∀ r ∈ records (raw.drop 4), r.Canonical := by
  obtain ⟨⟨n, hn⟩, hversion, hentries⟩ := decode_eq_ok.mp hdecode
  have hdvd : 8 ∣ (raw.drop 4).length := ⟨n, by rw [List.length_drop]; omega⟩
  have hraw : raw = bytes32 version ++ (records (raw.drop 4)).flatMap Record.bytes := by
    rw [bytes_records hdvd, ← hversion, List.take_append_drop]
  have hes : es.flatMap encodeEntry = stored.flatMap storedBytes := by
    -- An entry is stored as its numbers are.
    rw [← map_storedOf_of_resolve hresolve, List.flatMap_map]
    rfl
  conv => lhs; rhs; rw [hraw]
  rw [encode, append_eq_iff rfl, hes,
    flatMap_storedBytes_eq_iff (fits_of_mem_records _) hentries]
  exact and_iff_right rfl

/-! ## Reading what was stored -/

/-- What is left of an entry once it is stored and read again: the id that
it names only if its tag may name somebody and the id is one, and the bits
of the three permissions. -/
def kept (e : AclEntry) : StoredEntry where
  tag := e.tag
  id := (e.qualifier.map (·.id)).filter fun id => e.tag.isQualified && id ≠ undefinedId
  perms := ⟨e.perms.bits &&& 7⟩

/-- The id that an entry names is a word of 32 bits. -/
def IdFits (e : AclEntry) : Prop := ∀ q, e.qualifier = some q → q.id ≤ undefinedId

theorem ofLowBits_eq (bits : UInt8) : AclPerms.ofLowBits bits.toNat = ⟨bits &&& 7⟩ := by
  have hand : bits &&& 7 = UInt8.ofNat (bits.toNat % 8) := by
    have hmask : bits.toNat &&& 7 = bits.toNat % 8 := Nat.and_two_pow_sub_one_eq_mod bits.toNat 3
    rw [← UInt8.toNat_inj, UInt8.toNat_and, UInt8.toNat_ofNat']
    change bits.toNat &&& 7 = _
    omega
  rw [hand]
  rfl

/-- The numbers that are stored for an entry. -/
def recordOf (e : AclEntry) : Record :=
  ⟨tagCode e.tag, e.perms.bits.toNat, (e.qualifier.map (·.id)).getD undefinedId⟩

theorem records_encodeEntry {e : AclEntry} (he : IdFits e) (r : Bytes) :
    records (encodeEntry e ++ r) = recordOf e :: records r := by
  have htag := number16_bytes (tagCode_lt e.tag)
  have hperms := number16_bytes (Nat.lt_trans e.perms.bits.toNat_lt (by decide : 256 < 65536))
  have hid : (e.qualifier.map (·.id)).getD undefinedId < 4294967296 := by
    cases hq : e.qualifier with
    | none => decide
    | some q => exact Nat.lt_of_le_of_lt (he q hq) (by decide)
  simp only [encodeEntry, bytes16, bytes32, List.cons_append, List.nil_append, records, htag,
    hperms, number32_bytes hid]
  rfl

theorem stored?_recordOf (e : AclEntry) : (recordOf e).stored? = some (kept e) := by
  obtain ⟨tag, qualifier, perms⟩ := e
  rw [Record.stored?, recordOf, ofTagCode?_tagCode, Option.map_some, ofLowBits_eq]
  cases qualifier with
  | none => simp [kept]
  | some q => simp [kept, Option.filter]

theorem map_stored?_flatMap : ∀ {es : List AclEntry}, (∀ e ∈ es, IdFits e) →
    (records (es.flatMap encodeEntry)).map Record.stored? = (es.map kept).map some
  | [], _ => rfl
  | e :: r, hes => by
      obtain ⟨he, hr⟩ := List.forall_mem_cons.mp hes
      rw [List.flatMap_cons, records_encodeEntry he, List.map_cons, stored?_recordOf,
        map_stored?_flatMap hr]
      rfl

theorem length_encode (es : List AclEntry) : (encode es).length = 4 + 8 * es.length := by
  have hentry : ∀ e : AclEntry, (encodeEntry e).length = 8 := fun _ => rfl
  have hentries : (es.flatMap encodeEntry).length = 8 * es.length := by
    induction es with
    | nil => rfl
    | cons e r ih =>
        rw [List.flatMap_cons, List.length_append, hentry, ih, List.length_cons]
        omega
  rw [encode, List.length_append, hentries]
  rfl

/-- **Writing.** What is written for entries of any sort is a stored list,
and what is left of the entries is read from it. -/
theorem decode_encode {es : List AclEntry} (hes : ∀ e ∈ es, IdFits e) :
    decode (encode es) = .ok (es.map kept) :=
  decode_eq_ok.mpr ⟨⟨es.length, length_encode es⟩, rfl, map_stored?_flatMap hes⟩

/-- **The format.** Bytes are a stored list exactly when they are the
version and records with known tags, and the entries are those of the
records, in order. What was read is stored as the same bytes exactly when
every record is canonical. And whatever is written is a stored list, of the
entries that are left of those written. -/
theorem stored_form (names : NameService) (raw : Bytes) (entries : List AclEntry) :
    ((∃ es, decode raw = .ok es) ↔ (∃ n, raw.length = 4 + 8 * n)
        ∧ raw.take 4 = bytes32 version ∧ ∀ r ∈ records (raw.drop 4), r.tag ∈ tagCodes)
      ∧ (∀ stored, decode raw = .ok stored → raw.length = 4 + 8 * stored.length
        ∧ stored.map some = (records (raw.drop 4)).map Record.stored?
        ∧ ∀ es, resolve names stored = .ok es →
          (encode es = raw ↔ ∀ r ∈ records (raw.drop 4), r.Canonical))
      ∧ ((∀ e ∈ entries, IdFits e) → decode (encode entries) = .ok (entries.map kept)) := by
  refine ⟨exists_decode_iff raw, fun stored hdecode => ⟨length_of_decode hdecode, ?_, ?_⟩,
    decode_encode⟩
  · exact (decode_eq_ok.mp hdecode).2.2.symm
  · exact fun es hresolve => encode_eq_iff hdecode hresolve

namespace StrayId

/-- An owner with an id, and a user that is nobody and has bits that are no
permission. -/
def raw : Bytes := [2, 0, 0, 0, 1, 0, 6, 0, 7, 0, 0, 0, 2, 0, 0x0D, 1, 0xFF, 0xFF, 0xFF, 0xFF]

def stored : List StoredEntry := [⟨.userObj, none, ⟨6⟩⟩, ⟨.user, none, ⟨5⟩⟩]

def read : List AclEntry := [⟨.userObj, none, ⟨6⟩⟩, ⟨.user, none, ⟨5⟩⟩]

/-- A mask that names somebody, a group with the undefined id, and a user. -/
def entries : List AclEntry :=
  [⟨.mask, some ⟨5, "staff"⟩, ⟨0xFC⟩⟩, ⟨.group, some ⟨undefinedId, "none"⟩, ⟨1⟩⟩,
    ⟨.user, some ⟨0, "root"⟩, ⟨7⟩⟩]

/-- Nobody is known by name. -/
def names : NameService where
  lookup _ _ _ := .nothing

theorem idFits : ∀ e ∈ entries, IdFits e := by
  simp [entries, IdFits, undefinedId]

end StrayId

/-- The id of the owner and the bits that are no permission are not stored
again; of the entries that are written only the user keeps its id. -/
theorem stored_form_strayId : decode StrayId.raw = .ok StrayId.stored
    ∧ encode StrayId.read ≠ StrayId.raw
    ∧ decode (encode StrayId.entries)
      = .ok [⟨.mask, none, ⟨4⟩⟩, ⟨.group, none, ⟨1⟩⟩, ⟨.user, some 0, ⟨7⟩⟩] := by
  obtain ⟨haccepted, hread, hwritten⟩ := stored_form StrayId.names StrayId.raw StrayId.entries
  have hdecode : decode StrayId.raw = .ok StrayId.stored := by cbv
  obtain ⟨-, -, hsame⟩ := hread StrayId.stored hdecode
  refine ⟨hdecode, fun heq => ?_, (hwritten StrayId.idFits).trans (by cbv)⟩
  have hcanonical := (hsame StrayId.read rfl).mp heq
  -- The owner, which may not name anybody, would have the undefined id.
  have howner := (hcanonical ⟨1, 6, 7⟩ (by decide)).id .userObj rfl rfl
  cases howner

end Conformance.Acl
