import Conformance.Proofs.Script.FixedKeys

/-!
# Steps that say what a file is like

Where the checks of such a step come from. There is one for each entry
that is given and no other (`StateEntries.Demands`), and the entries are
those that the document holds under `expect` of the step
(`Script.step_leads`, `Step.fileState_leads`).
-/

namespace Conformance

open Datum (Turn)

/-! ## Checks -/

namespace Step

/-- A check of a file that an entry asks for. -/
inductive StateEntries.Demands (e : StateEntries) : AttributeCheck → Prop
  | fileType {type : FileType} (h : e.type = some type) : Demands e (.fileType type)
  | permissions {literal : PermissionLiteral} {perms : Permissions}
    (h : e.permissions = some literal) (hperms : Permissions.ofLiteral literal = .ok perms) :
    Demands e (.permissions perms)
  | owner {literal : IdentityLiteral} (h : e.owner = some literal) :
    Demands e (.identity .user literal.id literal.name)
  | group {literal : IdentityLiteral} (h : e.group = some literal) :
    Demands e (.identity .group literal.id literal.name)
  | access {millis : Int} (h : e.access = some millis) : Demands e (.timestamp .access millis)
  | modify {millis : Int} (h : e.modify = some millis) : Demands e (.timestamp .modify millis)
  | change {millis : Int} (h : e.change = some millis) :
    Demands e (.timestamp .metadataChange millis)
  | acl {texts : List String} {checks : List AclEntryCheck} (h : e.acl = some texts)
    (hchecks : aclChecks texts = .ok checks) : Demands e (.acl checks)

theorem mem_permissionCheck {literal : Option PermissionLiteral} {checks : List AttributeCheck}
    (h : permissionCheck literal = .ok checks) {c : AttributeCheck} :
    c ∈ checks ↔ ∃ l perms, literal = some l ∧ Permissions.ofLiteral l = .ok perms
      ∧ c = .permissions perms := by
  cases literal with
  | none =>
      cases h
      simp
  | some l =>
      obtain ⟨perms, hperms, rfl⟩ := Result.map_eq_ok.mp h
      simp [hperms]

theorem mem_aclCheck {texts : Option (List String)} {checks : List AttributeCheck}
    (h : aclCheck texts = .ok checks) {c : AttributeCheck} :
    c ∈ checks ↔ ∃ ts cs, texts = some ts ∧ aclChecks ts = .ok cs ∧ c = .acl cs := by
  cases texts with
  | none =>
      cases h
      simp
  | some ts =>
      obtain ⟨cs, hcs, rfl⟩ := Result.map_eq_ok.mp h
      simp [hcs]

/-- **Checks.** There is a check for each entry that is given, and no
other. -/
theorem mem_expectations {e : StateEntries} {expect : AttributeExpectations}
    (h : e.expectations = .ok expect) {c : AttributeCheck} :
    c ∈ expect.checks ↔ e.Demands c := by
  obtain ⟨permissions, hpermissions, h⟩ := Result.bind_eq_ok.mp h
  obtain ⟨acl, hacl, h⟩ := Result.bind_eq_ok.mp h
  dsimp only at h
  split at h
  · cases h
  · cases h
    simp only [AttributeExpectations.of, List.mem_mergeSort, List.mem_append, identityCheck,
      timestampCheck, Option.mem_toList, Option.map_eq_some_iff,
      mem_permissionCheck hpermissions, mem_aclCheck hacl]
    constructor
    · rintro (((((((⟨type, h, rfl⟩ | ⟨l, perms, h, hperms, rfl⟩) | ⟨l, h, rfl⟩) | ⟨l, h, rfl⟩)
        | ⟨millis, h, rfl⟩) | ⟨millis, h, rfl⟩) | ⟨millis, h, rfl⟩) | ⟨ts, cs, h, hcs, rfl⟩)
      · exact .fileType h
      · exact .permissions h hperms
      · exact .owner h
      · exact .group h
      · exact .access h
      · exact .modify h
      · exact .change h
      · exact .acl h hcs
    · intro hdemands
      cases hdemands <;> simp [*]

/-- The owner or the group. -/
def StateEntries.identity (e : StateEntries) : IdentityKind → Option IdentityLiteral
  | .user => e.owner
  | .group => e.group

theorem StateEntries.demands_identity {e : StateEntries} {kind : IdentityKind} {id : Option Nat}
    {name : Option String} :
    e.Demands (.identity kind id name) ↔ e.identity kind = some ⟨id, name⟩ := by
  constructor
  · intro h
    cases h with
    | owner h => exact h
    | group h => exact h
  · intro h
    cases kind with
    | user => exact .owner h
    | group => exact .group h

/-- Whether there is an entry for attributes of a kind. -/
def StateEntries.gives (e : StateEntries) : AttributeKind → Bool
  | .fileType => e.type.isSome
  | .permissions => e.permissions.isSome
  | .identity kind => (e.identity kind).isSome
  | .timestamp .access => e.access.isSome
  | .timestamp .modify => e.modify.isSome
  | .timestamp .metadataChange => e.change.isSome
  | .acl => e.acl.isSome

/-- There is a check of each kind that is given. -/
theorem exists_check_iff {e : StateEntries} {expect : AttributeExpectations}
    (h : e.expectations = .ok expect) {kind : AttributeKind} :
    (∃ c ∈ expect.checks, c.kind = kind) ↔ e.gives kind = true := by
  simp only [mem_expectations h]
  constructor
  · rintro ⟨c, hc, rfl⟩
    cases hc <;> simp [StateEntries.gives, StateEntries.identity, AttributeCheck.kind, *]
  · intro hgives
    obtain ⟨permissions, hpermissions, h⟩ := Result.bind_eq_ok.mp h
    obtain ⟨acl, hacl, -⟩ := Result.bind_eq_ok.mp h
    cases kind with
    | fileType =>
        obtain ⟨type, htype⟩ := Option.isSome_iff_exists.mp hgives
        exact ⟨_, .fileType htype, rfl⟩
    | permissions =>
        obtain ⟨literal, hliteral⟩ := Option.isSome_iff_exists.mp hgives
        rw [hliteral] at hpermissions
        obtain ⟨perms, hperms, -⟩ := Result.map_eq_ok.mp hpermissions
        exact ⟨_, .permissions hliteral hperms, rfl⟩
    | identity kind =>
        obtain ⟨literal, hliteral⟩ := Option.isSome_iff_exists.mp hgives
        exact ⟨.identity kind literal.id literal.name,
          StateEntries.demands_identity.mpr hliteral, rfl⟩
    | timestamp kind =>
        cases kind with
        | access =>
            obtain ⟨millis, hmillis⟩ := Option.isSome_iff_exists.mp hgives
            exact ⟨_, .access hmillis, rfl⟩
        | modify =>
            obtain ⟨millis, hmillis⟩ := Option.isSome_iff_exists.mp hgives
            exact ⟨_, .modify hmillis, rfl⟩
        | metadataChange =>
            obtain ⟨millis, hmillis⟩ := Option.isSome_iff_exists.mp hgives
            exact ⟨_, .change hmillis, rfl⟩
    | acl =>
        obtain ⟨texts, htexts⟩ := Option.isSome_iff_exists.mp hgives
        rw [htexts] at hacl
        obtain ⟨checks, hchecks, -⟩ := Result.map_eq_ok.mp hacl
        exact ⟨_, .acl htexts hchecks, rfl⟩

end Step

/-! ## Where a document says it -/

theorem Datum.leads_key_iff {d v x : Datum} {name : String} {way : List Turn}
    (hv : d.Holds name v) (hunique : ∀ v', d.Holds name v' → v' = v) :
    d.Leads (.key name :: way) x ↔ v.Leads way x := by
  constructor
  · intro h
    obtain ⟨v', hv', hrest⟩ := h.of_key
    rwa [hunique v' hv'] at hrest
  · exact .key hv

namespace Step

/-- Each entry is read from the optional field that is called like its
kind. -/
theorem entries_of_reader {d : Datum} {e : StateEntries} (h : StateEntries.reader d = .ok e) :
    ∃ fields r, Reader.entries .script "struct StateExpect" true fields d = .ok r
      ∧ (∀ kind, r.optional (AttributeKind.identity kind).name IdentityLiteral.reader
          = .ok (e.identity kind))
      ∧ ∀ kind : AttributeKind, ∃ (α : Type) (reader : Reader α) (a : Option α),
          r.optional kind.name reader = .ok a ∧ a.isSome = e.gives kind := by
  obtain ⟨r, hr, h⟩ := Result.bind_eq_ok.mp h
  obtain ⟨_, htype, h⟩ := Result.bind_eq_ok.mp h
  obtain ⟨_, hpermissions, h⟩ := Result.bind_eq_ok.mp h
  obtain ⟨_, howner, h⟩ := Result.bind_eq_ok.mp h
  obtain ⟨_, hgroup, h⟩ := Result.bind_eq_ok.mp h
  obtain ⟨_, haccess, h⟩ := Result.bind_eq_ok.mp h
  obtain ⟨_, hmodify, h⟩ := Result.bind_eq_ok.mp h
  obtain ⟨_, hchange, h⟩ := Result.bind_eq_ok.mp h
  obtain ⟨_, hacl, h⟩ := Result.bind_eq_ok.mp h
  cases h
  refine ⟨_, r, hr, fun kind => ?_, fun kind => ?_⟩
  · cases kind with
    | user => exact howner
    | group => exact hgroup
  · cases kind with
    | fileType => exact ⟨_, _, _, htype, rfl⟩
    | permissions => exact ⟨_, _, _, hpermissions, rfl⟩
    | identity kind =>
        cases kind with
        | user => exact ⟨_, _, _, howner, rfl⟩
        | group => exact ⟨_, _, _, hgroup, rfl⟩
    | timestamp kind =>
        cases kind with
        | access => exact ⟨_, _, _, haccess, rfl⟩
        | modify => exact ⟨_, _, _, hmodify, rfl⟩
        | metadataChange => exact ⟨_, _, _, hchange, rfl⟩
    | acl => exact ⟨_, _, _, hacl, rfl⟩

section

variable {d v : Datum} {e : StateEntries}

/-- An owner that is given is one that the document holds. -/
theorem leads_of_identity (h : StateEntries.reader d = .ok e) {kind : IdentityKind}
    {literal : IdentityLiteral} (hliteral : e.identity kind = some literal) :
    ∃ v, d.Leads [.key (AttributeKind.identity kind).name] v
      ∧ IdentityLiteral.reader v = .ok literal := by
  obtain ⟨fields, r, hr, hidentity, -⟩ := entries_of_reader h
  have hread := hidentity kind
  rw [hliteral] at hread
  obtain ⟨v, hv, -, hv'⟩ := Reader.holds_of_optional hr (Reader.listed_eq_none rfl hr) hread
  exact ⟨v, .key hv .here, hv'⟩

/-- An owner that the document holds is the one that is given. -/
theorem identity_of_leads (h : StateEntries.reader d = .ok e) {kind : IdentityKind}
    (hv : d.Leads [.key (AttributeKind.identity kind).name] v) :
    Reader.optional IdentityLiteral.reader v = .ok (e.identity kind) := by
  obtain ⟨fields, r, hr, hidentity, -⟩ := entries_of_reader h
  have hread := hidentity kind
  obtain ⟨_, hholds, ⟨⟩⟩ := hv.of_key
  rwa [Reader.Entries.optional, (Reader.entries_admits hr).value _ _ hholds] at hread

/-- What is given is what the document holds, unless it is null. -/
theorem gives_iff (h : StateEntries.reader d = .ok e) {kind : AttributeKind} :
    e.gives kind = true ↔ ∃ v, d.Leads [.key kind.name] v ∧ v ≠ .null := by
  obtain ⟨fields, r, hr, -, hfield⟩ := entries_of_reader h
  obtain ⟨α, reader, a, ha, hgives⟩ := hfield kind
  rw [← hgives]
  constructor
  · intro hsome
    obtain ⟨b, rfl⟩ := Option.isSome_iff_exists.mp hsome
    obtain ⟨v, hv, hnull, -⟩ := Reader.holds_of_optional hr (Reader.listed_eq_none rfl hr) ha
    exact ⟨v, .key hv .here, hnull⟩
  · rintro ⟨v, hway, hnull⟩
    obtain ⟨_, hv, ⟨⟩⟩ := hway.of_key
    rw [Reader.Entries.optional, (Reader.entries_admits hr).value _ _ hv] at ha
    cases a with
    | some b => rfl
    | none => exact absurd (Reader.optional_eq_none.mp ha) hnull

end

variable {capability : String} {index : Nat} {x : Datum} {step : Step} {path : Path}
  {expect : AttributeExpectations}

theorem fileState_of_read {kind : String} {d : Datum}
    (h : read capability kind d = .ok (.fileState path expect)) :
    fileState d = .ok (.fileState path expect) := by
  unfold read at h
  split at h
  · obtain ⟨e, -, h⟩ := Result.bind_eq_ok.mp h
    obtain ⟨_, -, h⟩ := Result.bind_eq_ok.mp h
    obtain ⟨_, -, h⟩ := Result.bind_eq_ok.mp h
    obtain ⟨_, -, h⟩ := Result.bind_eq_ok.mp h
    cases h
  · obtain ⟨_, -, h⟩ := Result.bind_eq_ok.mp h
    obtain ⟨_, -, h⟩ := Result.bind_eq_ok.mp h
    cases h
  · obtain ⟨_, -, h⟩ := Result.map_eq_ok.mp h
    cases h
  · obtain ⟨⟨_, _⟩, -, h⟩ := Result.bind_eq_ok.mp h
    obtain ⟨_, -, h⟩ := Result.bind_eq_ok.mp h
    cases h
  · exact h
  · cases h

/-- What a step about a file expects is what it holds under `expect`. -/
theorem fileState_leads (h : ofDatum capability index x = .ok step)
    (hstep : step.directive = .fileState path expect) :
    ∃ v e, StateEntries.reader v = .ok e ∧ e.expectations = .ok expect
      ∧ ∀ way y, x.Leads (.key "expect" :: way) y ↔ v.Leads way y := by
  obtain ⟨es, rest, kind, rfl, hleaves, hread⟩ := ofDatum_ok h
  rw [hstep] at hread
  obtain ⟨⟨p, e⟩, hentries, hread⟩ := Result.bind_eq_ok.mp (fileState_of_read hread)
  obtain ⟨_, -, hread⟩ := Result.bind_eq_ok.mp hread
  obtain ⟨expect', hexpect, hread⟩ := Result.bind_eq_ok.mp hread
  cases hread
  obtain ⟨r, hr, hentries⟩ := Result.bind_eq_ok.mp (ofReading_eq_ok.mp hentries)
  obtain ⟨_, -, hentries⟩ := Result.bind_eq_ok.mp hentries
  obtain ⟨e', he, hentries⟩ := Result.bind_eq_ok.mp hentries
  cases hentries
  obtain ⟨v, hv, hreader⟩ := Reader.holds_of_required hr (Reader.listed_eq_none rfl hr) he
  refine ⟨v, e, hreader, hexpect, fun way y => Datum.leads_key_iff (hleaves.holds_of_rest hv) ?_⟩
  intro v' hv'
  exact (Reader.entries_admits hr).unique (hleaves.holds (by decide) (by decide) hv') hv

end Step

namespace Script

/-- The step at a place is read from the item at that place. -/
theorem step_leads {d : Datum} {s : Script} (h : ofDatum d = .ok s) {j : Nat} {step : Step}
    (hj : s.steps[j]? = some step) :
    ∃ capability x, Step.ofDatum capability j x = .ok step
      ∧ ∀ way y, d.Leads (.key "steps" :: .item j :: way) y ↔ x.Leads way y := by
  obtain ⟨es, capability, items, rfl, hbody, hlist⟩ := ofDatum_ok h
  obtain ⟨hlength, hitems⟩ := Step.ofList_ok hlist
  obtain ⟨hlt, -⟩ := List.getElem?_eq_some_iff.mp hj
  obtain ⟨x, hx⟩ : ∃ x, items[j]? = some x := ⟨_, List.getElem?_eq_getElem (hlength ▸ hlt)⟩
  obtain ⟨step', hstep', hread⟩ := hitems j x hx
  obtain rfl := Option.some.inj (hj.symm.trans hstep')
  rw [Nat.zero_add] at hread
  obtain ⟨v, ⟨rest, hrest, k, he, hk⟩, hv⟩ :=
    holds_of_bodyReader hbody (List.ne_nil_of_mem (List.mem_of_getElem? hx))
  cases hrest
  refine ⟨capability, x, hread, fun way y => ⟨fun hway => ?_, fun hway => ?_⟩⟩
  · obtain ⟨v', hv', hway⟩ := hway.of_key
    obtain ⟨xs, x', hxs, hx', hway⟩ := hway.of_item
    obtain rfl := (bodyReader_ok hbody).2 v' xs (holds_remainder hv') hxs
    rwa [Option.some.inj (hx.symm.trans hx')]
  · exact .key ⟨es, rfl, k, mem_of_mem_foldl_remove he, hk⟩ (.item hv hx hway)

end Script

end Conformance
