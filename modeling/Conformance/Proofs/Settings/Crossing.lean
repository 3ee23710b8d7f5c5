import Conformance.Settings
import Conformance.Proofs.Json.Characters
import Conformance.Proofs.Json.RoundTrip
import Conformance.Proofs.Parcel.Crossing

/-!
# Settings that cross the boundary

Settings are handed to a native plugin as a JSON object of texts. Their
text is never turned away (`raw_eq`), and where the names are in order and
each is there once it reads as the same settings (`ofRaw_encode`). All
settings that are made of entries are of that form (`ofList_ordered`).
-/

namespace Conformance.Settings

/-- The names are in ascending order, each there once. -/
def Ordered (s : Settings) : Prop :=
  s.Pairwise fun e f => e.1 < f.1

instance (s : Settings) : Decidable s.Ordered :=
  inferInstanceAs (Decidable (s.Pairwise fun e f => e.1 < f.1))

/-! ## Settings in order -/

theorem mem_insert {key value : String} {e : String × String} :
    ∀ {s : Settings}, e ∈ insert key value s → e = (key, value) ∨ e ∈ s
  | [], h => .inl (List.mem_singleton.mp h)
  | (k, v) :: r, h => by
      rw [insert] at h
      split at h
      · exact (List.mem_cons.mp h).imp_right (List.mem_cons_of_mem _)
      · split at h
        · exact List.mem_cons.mp h
        · rcases List.mem_cons.mp h with rfl | h
          · exact .inr (List.mem_cons_self ..)
          · exact (mem_insert h).imp_right (List.mem_cons_of_mem _)

theorem insert_ordered (key value : String) : ∀ {s : Settings}, Ordered s →
    Ordered (insert key value s)
  | [], _ => List.pairwise_singleton ..
  | (k, v) :: r, h => by
      obtain ⟨hhead, htail⟩ := List.pairwise_cons.mp h
      rw [insert]
      split
      case isTrue heq => exact List.pairwise_cons.mpr ⟨heq ▸ hhead, htail⟩
      case isFalse hne =>
        split
        case isTrue hlt =>
          refine List.pairwise_cons.mpr ⟨fun e he => ?_, h⟩
          rcases List.mem_cons.mp he with rfl | he
          · exact hlt
          · exact String.lt_trans hlt (hhead e he)
        case isFalse hnlt =>
          have hgt : k < key := Decidable.byContradiction fun hle =>
            hne (String.le_antisymm (String.not_lt.mp hle) (String.not_lt.mp hnlt))
          refine List.pairwise_cons.mpr ⟨fun e he => ?_, insert_ordered key value htail⟩
          rcases mem_insert he with rfl | he
          · exact hgt
          · exact hhead e he

theorem ofList_ordered (entries : List (String × String)) : Ordered (ofList entries) := by
  have hfold : ∀ (es : List (String × String)) (s : Settings), Ordered s →
      Ordered (es.foldl (fun acc e => insert e.1 e.2 acc) s) := by
    intro es
    induction es with
    | nil => exact fun s hs => hs
    | cons e r ih => exact fun s hs => ih _ (insert_ordered e.1 e.2 hs)
  exact hfold entries [] List.Pairwise.nil

theorem insert_of_lt {key value : String} : ∀ {s : Settings}, (∀ e ∈ s, e.1 < key) →
    insert key value s = s ++ [(key, value)]
  | [], _ => rfl
  | (k, v) :: r, h => by
      obtain ⟨hhead, htail⟩ := List.forall_mem_cons.mp h
      have hne : key ≠ k := by
        rintro rfl
        exact String.lt_irrefl _ hhead
      rw [insert, if_neg hne, if_neg (String.lt_asymm hhead), insert_of_lt htail]
      rfl

/-- Settings in order are what is made of their entries. -/
theorem Ordered.ofList_eq {s : Settings} (h : Ordered s) : ofList s = s := by
  have hfold : ∀ r acc : Settings, Ordered (acc ++ r) →
      r.foldl (fun acc e => insert e.1 e.2 acc) acc = acc ++ r := by
    intro r
    induction r with
    | nil => simp
    | cons e r ih =>
        intro acc hacc
        have hlt := (List.pairwise_append.mp hacc).2.2
        rw [List.foldl_cons, insert_of_lt fun f hf => hlt f hf e (List.mem_cons_self ..),
          ih _ (by simpa using hacc)]
        simp
  exact hfold s [] h

/-! ## Settings as JSON -/

/-- The entries of settings as members of a JSON object. -/
def members (s : Settings) : List (String × Json) := s.map fun e => (e.1, .str e.2)

theorem insert_members (key value : String) : ∀ s : Settings,
    Json.insert key (.str value) (members s) = members (insert key value s)
  | [] => rfl
  | (k, v) :: r => by
      have ih := insert_members key value r
      rw [members, List.map_cons, Json.insert, insert]
      split
      · rfl
      · split
        · rfl
        · exact congrArg (_ :: ·) ih

theorem json_eq (s : Settings) : s.json = .obj (members (ofList s)) := by
  have hfold : ∀ r acc : Settings,
      (members r).foldl (fun acc m => Json.insert m.1 m.2 acc) (members acc)
        = members (r.foldl (fun acc e => insert e.1 e.2 acc) acc) := by
    intro r
    induction r with
    | nil => exact fun acc => rfl
    | cons e r ih =>
        intro acc
        rw [List.foldl_cons, ← ih, ← insert_members]
        rfl
  exact congrArg Json.obj (hfold s [])

theorem ofMembers?_members : ∀ s : Settings, ofMembers? (members s) = some s
  | [] => rfl
  | (k, v) :: r => by
      have ih := ofMembers?_members r
      rw [members] at ih
      rw [members, List.map_cons, ofMembers?, ih]
      rfl

theorem membersExact_members : ∀ s : Settings, Json.membersExact (members s)
  | [] => trivial
  | (_, _) :: r => ⟨trivial, membersExact_members r⟩

theorem memberLevels_members : ∀ s : Settings, Json.memberLevels (members s) = 0
  | [] => rfl
  | (_, _) :: r => by
      have ih := memberLevels_members r
      rw [members] at ih
      rw [members, List.map_cons, Json.memberLevels, ih]
      rfl

/-! ## Handing settings over -/

theorem nul_not_mem_text (s : Settings) : '\x00' ∉ s.text.toList :=
  s.json.nul_not_mem_text

theorem raw_eq (s : Settings) : s.raw = .ok (some (Utf8.encode s.text)) :=
  RawText.write_of_no_nul s.nul_not_mem_text "config"

theorem Ordered.parse?_text {s : Settings} (h : Ordered s) :
    Json.parse? s.text = some (.obj (members s)) := by
  rw [text, json_eq, h.ofList_eq]
  refine Json.parse?_text (membersExact_members s) ?_
  rw [Json.levels, memberLevels_members]
  decide

theorem Ordered.ofRaw_encode {s : Settings} (h : Ordered s) :
    ofRaw (some (Utf8.encode s.text)) = s := by
  rw [ofRaw, RawText.read_write s.nul_not_mem_text]
  dsimp only
  rw [h.parse?_text, Option.bind_some, ofJson?]
  simp [Json.obj?, ofMembers?_members, h.ofList_eq]

end Conformance.Settings
