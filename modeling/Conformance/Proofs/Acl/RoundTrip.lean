import Mathlib
import Conformance.Proofs.Acl.StoredForm

/-!
# A list that was read can be stored and read again

Reading a list forgets the ids of entries that name nobody and all bits
of a permission but three, and it adds names; writing invents an id where
an entry has none. The two meet on everything that reading can give: its
entries are `Captured`, and of a captured entry nothing is lost where it
is stored (`Captured.kept_eq`, `resolveEntry_storedOf`). So a list that
was read, once it is stored, is read again entry for entry
(`read_encode_of_read`), whatever bytes it was read from and whatever mode
stood in for bytes that were missing.
-/

namespace Conformance.Acl

/-! ## Entries that reading gives -/

/-- A stored entry as it is read from eight bytes. -/
structure StoredEntry.Plain (e : StoredEntry) : Prop where
  perms : e.perms.bits.toNat < 8
  id : ∀ n, e.id = some n → e.tag.isQualified = true ∧ n < undefinedId

/-- An entry that reading gives: it has no bits but those of the three
permissions, and it names somebody only if its tag may, by an id that the
service knows by that name. -/
structure Captured (names : NameService) (e : AclEntry) : Prop where
  perms : e.perms.bits.toNat < 8
  named : ∀ q, e.qualifier = some q → e.tag.isQualified = true ∧ q.id < undefinedId
    ∧ names.resolve (identityKind e.tag) q.id = .ok (some q.name)

theorem ofLowBits_lt (n : Nat) : (AclPerms.ofLowBits n).bits.toNat < 8 := by
  rw [ofLowBits_toNat]
  omega

/-- What a record is read as. -/
theorem plain_of_stored? {r : Record} (hr : r.Fits) {s : StoredEntry} (h : r.stored? = some s) :
    s.Plain := by
  obtain ⟨tag, -, rfl⟩ := Option.map_eq_some_iff.mp h
  refine ⟨ofLowBits_lt _, fun n hn => ?_⟩
  dsimp only at hn
  split at hn
  · rename_i hq
    simp only [Bool.and_eq_true, decide_eq_true_eq] at hq
    obtain rfl := Option.some.inj hn
    exact ⟨hq.1, Nat.lt_of_le_of_ne hr.id hq.2⟩
  · cases hn

theorem plain_of_decode {raw : Bytes} {es : List StoredEntry} (h : decode raw = .ok es) :
    ∀ e ∈ es, e.Plain := by
  intro e he
  obtain ⟨-, -, hentries⟩ := decode_eq_ok.mp h
  have hmem : some e ∈ (records (raw.drop 4)).map Record.stored? :=
    hentries ▸ List.mem_map_of_mem he
  obtain ⟨r, hr, hentry⟩ := List.mem_map.mp hmem
  exact plain_of_stored? (fits_of_mem_records _ r hr) hentry

theorem captured_of_resolveEntry {names : NameService} {s : StoredEntry} {e : AclEntry}
    (hs : s.Plain) (h : resolveEntry names s = .ok e) : Captured names e := by
  unfold resolveEntry at h
  split at h
  · cases h
    exact ⟨hs.perms, fun q hq => by cases hq⟩
  · rename_i id hid
    split at h
    · cases h
    · cases h
    · rename_i name hname
      cases h
      refine ⟨hs.perms, fun q hq => ?_⟩
      cases hq
      obtain ⟨hqualified, hlt⟩ := hs.id id hid
      exact ⟨hqualified, hlt, hname⟩

theorem captured_of_resolve {names : NameService} : ∀ {stored : List StoredEntry}
    {es : List AclEntry}, (∀ s ∈ stored, s.Plain) → resolve names stored = .ok es →
      ∀ e ∈ es, Captured names e
  | [], es, _, h => by
      cases h
      simp
  | s :: r, es, hplain, h => by
      rw [resolve] at h
      cases hentry : resolveEntry names s with
      | error fault => simp [hentry] at h
      | ok entry =>
          cases hrest : resolve names r with
          | error fault => simp [hentry, hrest, Except.map] at h
          | ok rest =>
              simp only [hentry, hrest, Except.map, Except.ok.injEq] at h
              subst h
              have hfirst := captured_of_resolveEntry (hplain s (List.mem_cons_self ..)) hentry
              have hothers := captured_of_resolve
                (fun t ht => hplain t (List.mem_cons_of_mem _ ht)) hrest
              intro e he
              rcases List.mem_cons.mp he with rfl | he
              · exact hfirst
              · exact hothers e he

theorem captured_minimal (names : NameService) (mode : UInt32) :
    ∀ e ∈ minimal mode, Captured names e := by
  intro e he
  simp only [minimal, List.mem_cons, List.not_mem_nil, or_false] at he
  rcases he with rfl | rfl | rfl
  all_goals exact ⟨ofLowBits_lt _, fun q hq => by cases hq⟩

/-- **Reading.** Whatever it gives is captured. -/
theorem captured_of_read {names : NameService} {reading : Reading} {mode : UInt32}
    {es : List AclEntry} (h : read names reading mode = .ok es) : ∀ e ∈ es, Captured names e := by
  unfold read at h
  split at h
  · cases h
  · cases h
    exact captured_minimal names mode
  · split at h
    · cases h
    · rename_i stored hdecode
      exact captured_of_resolve (plain_of_decode hdecode) h

/-! ## Storing what was read -/

/-- Of a captured entry nothing is lost where it is stored but its name. -/
theorem Captured.kept_eq {names : NameService} {e : AclEntry} (he : Captured names e) :
    kept e = storedOf e := by
  obtain ⟨tag, qualifier, perms⟩ := e
  have hperms : (⟨perms.bits &&& 7⟩ : AclPerms) = perms := by
    rw [← ofLowBits_eq, AclPerms.ofLowBits, Nat.mod_eq_of_lt he.perms, UInt8.ofNat_toNat]
  cases qualifier with
  | none => simp [kept, storedOf, hperms]
  | some q =>
      obtain ⟨hqualified, hlt, -⟩ := he.named q rfl
      simp only [] at hqualified
      simp [kept, storedOf, hperms, hqualified, Nat.ne_of_lt hlt]

theorem Captured.idFits {names : NameService} {e : AclEntry} (he : Captured names e) : IdFits e :=
  fun q hq => Nat.le_of_lt (he.named q hq).2.1

/-- **Writing.** What is written for captured entries is read as them, but
for their names. -/
theorem decode_encode_captured {names : NameService} {es : List AclEntry}
    (hes : ∀ e ∈ es, Captured names e) : decode (encode es) = .ok (es.map storedOf) := by
  rw [decode_encode fun e he => (hes e he).idFits,
    List.map_congr_left fun e he => (hes e he).kept_eq]

theorem resolveEntry_storedOf {names : NameService} {e : AclEntry} (he : Captured names e) :
    resolveEntry names (storedOf e) = .ok e := by
  obtain ⟨tag, qualifier, perms⟩ := e
  cases qualifier with
  | none => rfl
  | some q =>
      obtain ⟨-, -, hname⟩ := he.named q rfl
      simp only [resolveEntry, storedOf, Option.map_some]
      rw [hname]

theorem resolve_storedOf {names : NameService} : ∀ {es : List AclEntry},
    (∀ e ∈ es, Captured names e) → resolve names (es.map storedOf) = .ok es
  | [], _ => rfl
  | e :: r, hes => by
      have ih := resolve_storedOf fun t ht => hes t (List.mem_cons_of_mem _ ht)
      rw [List.map_cons, resolve, resolveEntry_storedOf (hes e (List.mem_cons_self ..)), ih]
      rfl

/-- **Once more.** A list that was read, from whatever bytes or from the
mode of a file without any, is read again entry for entry once it is
stored. -/
theorem read_encode_of_read {names : NameService} {reading : Reading} {mode : UInt32}
    {es : List AclEntry} (h : read names reading mode = .ok es) (mode' : UInt32) :
    read names (.done (encode es)) mode' = .ok es := by
  have hes := captured_of_read h
  have hstored : (Reading.done (encode es)).stored = .ok (some (encode es)) := rfl
  unfold read
  rw [hstored]
  simp only [decode_encode_captured hes]
  exact resolve_storedOf hes

namespace OddList

/-- A service that knows one user. -/
def names : NameService where
  lookup kind id _ := if kind = .user ∧ id = 1000 then .found (Utf8.encode "zoë") else .nothing

/-- An attribute that had grown when it was read: a user with bits that
are no permission, an owner with an id, and a group without one. -/
def reading : Reading := .grew (.done [2, 0, 0, 0,
  2, 0, 0xFD, 0xFF, 0xE8, 3, 0, 0, 1, 0, 6, 0, 7, 0, 0, 0, 8, 0, 4, 0, 0xFF, 0xFF, 0xFF, 0xFF])

def entries : List AclEntry :=
  [⟨.user, some ⟨1000, "zoë"⟩, ⟨5⟩⟩, ⟨.userObj, none, ⟨6⟩⟩, ⟨.group, none, ⟨4⟩⟩]

end OddList

/-- What is odd about a list is gone after the first reading, and nothing
after the second. -/
theorem read_encode_of_read_oddList :
    read OddList.names OddList.reading 0 = .ok OddList.entries
      ∧ read OddList.names (.done (encode OddList.entries)) 0o644 = .ok OddList.entries :=
  have hread : read OddList.names OddList.reading 0 = .ok OddList.entries := by cbv
  ⟨hread, read_encode_of_read hread 0o644⟩

end Conformance.Acl
