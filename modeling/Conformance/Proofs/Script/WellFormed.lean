import Conformance.Proofs.Path.Components
import Conformance.Proofs.Script.FileStates
import Conformance.Proofs.Traversal

/-!
# Steps that are well-formed

What a step has to be, whatever steps stand before and after it
(`Step.WellFormed`): a mapping with a kind, with a name that is a text if it
has one, and with the entries of its kind, of which the paths stay in the
workspace and the literals stand for something. Just such a step can be
read (`Step.exists_ofDatum_iff`); a step that was read and the fault of one
that was not go by the same name (`Step.called`). So a list of steps can be
read just if every step can, and its fault is that of the first step that
is ill-formed (`Step.ofList_eq_error`).
-/

namespace Conformance

/-! ## Literals -/

/-- A mode that is a text and stands for permissions. -/
def ModeLiteral.Legible (l : ModeLiteral) : Prop :=
  ∃ text p, l = .text text ∧ Permissions.parse text = .ok p

/-- Permissions that stand for something, one by one or as a mode. -/
def PermissionLiteral.Legible : PermissionLiteral → Prop
  | .flags names => ∀ name ∈ names, ∃ p, Permissions.ofFlagName name = .ok p
  | .mode l => l.Legible

namespace Permissions

theorem exists_ofModeLiteral_iff {l : ModeLiteral} : (∃ p, ofModeLiteral l = .ok p) ↔ l.Legible := by
  cases l with
  | number n => simp [ofModeLiteral, ModeLiteral.Legible]
  | text s =>
      rw [ofModeLiteral]
      constructor
      · rintro ⟨p, hp⟩
        split at hp
        · rename_i hparse
          exact ⟨s, _, rfl, hparse⟩
        · cases hp
      · rintro ⟨_, p, ⟨⟩, hparse⟩
        exact ⟨p, by rw [hparse]⟩

theorem exists_ofFlagNames_iff : ∀ {names : List String} {p : Permissions},
    (∃ q, ofFlagNames p names = .ok q) ↔ ∀ name ∈ names, ∃ q, ofFlagName name = .ok q
  | [], p => iff_of_true ⟨p, rfl⟩ (by simp)
  | name :: r, p => by
      rw [List.forall_mem_cons, ofFlagNames]
      cases hname : ofFlagName name with
      | ok q =>
          dsimp only
          rw [exists_ofFlagNames_iff]
          exact (and_iff_right ⟨q, rfl⟩).symm
      | error fault => simp

theorem exists_ofLiteral_iff {l : PermissionLiteral} : (∃ p, ofLiteral l = .ok p) ↔ l.Legible := by
  cases l with
  | flags names => exact exists_ofFlagNames_iff
  | mode l => exact exists_ofModeLiteral_iff

end Permissions

namespace Step

/-! ## Fixtures -/

/-- The entries that an action needs, besides the path. -/
def FixtureEntries.Complete (e : FixtureEntries) : Prop :=
  match e.verb with
  | .symlink => ∃ target, e.target = some target ∧ target.StaysBelow
  | .chmod => e.mode.isSome
  | .write | .append => e.content.isSome
  | .create | .mkdir | .remove => True

/-- A fixture that stays in the workspace and has what it needs. -/
structure FixtureEntries.WellFormed (e : FixtureEntries) : Prop where
  path : e.path.StaysBelow
  mode : ∀ l, e.mode = some l → l.Legible
  complete : e.Complete

theorem exists_contained_iff {p : Path} : (∃ q, Path.contained p = .ok q) ↔ p.StaysBelow := by
  simp only [contained_eq_ok, Path.staysBelow_iff, exists_eq_left']

theorem exists_needed_iff {α : Type} {key : String} {a : Option α} :
    (∃ b, needed key a = .ok b) ↔ a.isSome := by
  cases a <;> simp [needed]

theorem exists_modeOf_iff {mode : Option ModeLiteral} :
    (∃ p, modeOf mode = .ok p) ↔ ∀ l, mode = some l → l.Legible := by
  cases mode with
  | none => simp [modeOf]
  | some l => simp [modeOf, Result.map_eq_ok, ← Permissions.exists_ofModeLiteral_iff]

theorem isSome_of_modeOf {mode : Option ModeLiteral} {p : Option Permissions}
    (h : modeOf mode = .ok p) : p.isSome = mode.isSome := by
  cases mode with
  | none =>
      cases h
      rfl
  | some l =>
      obtain ⟨q, -, rfl⟩ := Result.map_eq_ok.mp h
      rfl

theorem exists_action_iff {e : FixtureEntries} {mode : Option Permissions}
    (hmode : mode.isSome = e.mode.isSome) : (∃ a, e.action mode = .ok a) ↔ e.Complete := by
  unfold FixtureEntries.action FixtureEntries.Complete
  cases e.verb with
  | symlink =>
      dsimp only
      rw [Result.exists_map_iff]
      cases e.target with
      | none => simp [needed, Except.bind]
      | some target => simp [needed, Except.bind, exists_contained_iff]
  | chmod =>
      dsimp only
      rw [Result.exists_map_iff, exists_needed_iff, hmode]
  | write | append =>
      dsimp only
      rw [Result.exists_map_iff, Result.exists_map_iff, exists_needed_iff]
  | create | mkdir | remove => simp

/-! ## Assertions about files -/

/-- Something is expected of the file, and all of it stands for
something. -/
structure StateEntries.WellFormed (e : StateEntries) : Prop where
  permissions : ∀ l, e.permissions = some l → l.Legible
  acl : ∀ texts, e.acl = some texts → ∀ t ∈ texts, ∃ c, AclEntryCheck.ofText? t = some c
  gives : ∃ kind, e.gives kind = true

theorem exists_aclChecks_iff : ∀ {texts : List String},
    (∃ cs, aclChecks texts = .ok cs) ↔ ∀ t ∈ texts, ∃ c, AclEntryCheck.ofText? t = some c
  | [] => iff_of_true ⟨[], rfl⟩ (by simp)
  | t :: r => by
      rw [List.forall_mem_cons, aclChecks]
      cases AclEntryCheck.ofText? t with
      | some c =>
          dsimp only
          rw [Result.exists_map_iff, exists_aclChecks_iff]
          exact (and_iff_right ⟨c, rfl⟩).symm
      | none => simp

theorem exists_permissionCheck_iff {literal : Option PermissionLiteral} :
    (∃ cs, permissionCheck literal = .ok cs) ↔ ∀ l, literal = some l → l.Legible := by
  cases literal with
  | none => simp [permissionCheck]
  | some l => simp [permissionCheck, Result.exists_map_iff, Permissions.exists_ofLiteral_iff]

theorem exists_aclCheck_iff {texts : Option (List String)} :
    (∃ cs, aclCheck texts = .ok cs)
      ↔ ∀ ts, texts = some ts → ∀ t ∈ ts, ∃ c, AclEntryCheck.ofText? t = some c := by
  cases texts with
  | none => simp [aclCheck]
  | some ts => simp [aclCheck, Result.exists_map_iff, exists_aclChecks_iff]

theorem permissionCheck_eq_nil {literal : Option PermissionLiteral} :
    permissionCheck literal = .ok [] ↔ literal = none := by
  cases literal <;> simp [permissionCheck, Result.map_eq_ok]

theorem aclCheck_eq_nil {texts : Option (List String)} : aclCheck texts = .ok [] ↔ texts = none := by
  cases texts <;> simp [aclCheck, Result.map_eq_ok]

theorem exists_expectations_iff {e : StateEntries} :
    (∃ expect, e.expectations = .ok expect) ↔ e.WellFormed := by
  constructor
  · rintro ⟨expect, h⟩
    have hgives := @exists_check_iff e expect h
    obtain ⟨permissions, hpermissions, h⟩ := Result.bind_eq_ok.mp h
    obtain ⟨acl, hacl, h⟩ := Result.bind_eq_ok.mp h
    refine ⟨exists_permissionCheck_iff.mp ⟨_, hpermissions⟩, exists_aclCheck_iff.mp ⟨_, hacl⟩, ?_⟩
    dsimp only at h
    split at h
    · cases h
    · rename_i hsome
      cases h
      obtain ⟨c, hc⟩ := List.exists_mem_of_ne_nil _ (mt List.isEmpty_iff.mpr hsome)
      exact ⟨c.kind, hgives.mp ⟨c, List.mem_mergeSort.mpr hc, rfl⟩⟩
  · rintro ⟨hpermissions, hacl, kind, hkind⟩
    obtain ⟨permissions, hpermissions⟩ := exists_permissionCheck_iff.mpr hpermissions
    obtain ⟨acl, hacl⟩ := exists_aclCheck_iff.mpr hacl
    rw [StateEntries.expectations, hpermissions, hacl]
    dsimp only [bind, Except.bind]
    split
    · -- Without a check nothing is given.
      rename_i hnone
      simp only [List.isEmpty_iff, List.append_eq_nil_iff, Option.toList_eq_nil_iff,
        Option.map_eq_none_iff, identityCheck, timestampCheck] at hnone
      obtain ⟨⟨⟨⟨⟨⟨⟨htype, rfl⟩, howner⟩, hgroup⟩, haccess⟩, hmodify⟩, hchange⟩, rfl⟩ := hnone
      rw [permissionCheck_eq_nil] at hpermissions
      rw [aclCheck_eq_nil] at hacl
      rcases kind with _ | _ | (_ | _) | (_ | _ | _) | _ <;>
        simp [StateEntries.gives, StateEntries.identity, *] at hkind
    · exact ⟨_, rfl⟩

/-! ## Steps -/

/-- The other entries of a step of some kind. -/
inductive Body (capability : String) (d : Datum) : String → Prop
  | fixture {e : FixtureEntries} (h : FixtureEntries.reader d = .ok e) (hwell : e.WellFormed) :
    Body capability d "before"
  | monitor {request : MonitorRequest} (h : monitorReader capability d = .ok request)
    (hpath : request.path.StaysBelow) : Body capability d "monitor-request"
  | await {wait : ParcelWait} (h : waitReader d = .ok wait) : Body capability d "after"
  | presence {path : Path} {present : Bool} (h : presenceReader d = .ok (path, present))
    (hpath : path.StaysBelow) : Body capability d "exists"
  | fileState {path : Path} {e : StateEntries} (h : fileStateReader d = .ok (path, e))
    (hpath : path.StaysBelow) (hwell : e.WellFormed) : Body capability d "file-state"

/-- A step that is well-formed on its own. -/
inductive WellFormed (capability : String) : Datum → Prop
  | step {es : List (Datum × Datum)} {kind : String}
    (hname : ∀ v, Datum.lookup "name" es = some v → ∃ name, v = .text name)
    (hkind : Datum.lookup "kind" (Datum.remove "name" es).2 = some (.text kind))
    (hbody : Body capability (.map (Datum.remove "kind" (Datum.remove "name" es).2).2) kind) :
    WellFormed capability (.map es)

variable {capability : String}

theorem exists_fixture_iff {d : Datum} : (∃ directive, fixture d = .ok directive)
    ↔ ∃ e, FixtureEntries.reader d = .ok e ∧ e.WellFormed := by
  constructor
  · rintro ⟨directive, h⟩
    obtain ⟨e, he, h⟩ := Result.bind_eq_ok.mp h
    obtain ⟨path, hpath, h⟩ := Result.bind_eq_ok.mp h
    obtain ⟨mode, hmode, h⟩ := Result.bind_eq_ok.mp h
    obtain ⟨action, haction, -⟩ := Result.bind_eq_ok.mp h
    exact ⟨e, ofReading_eq_ok.mp he, exists_contained_iff.mp ⟨_, hpath⟩,
      exists_modeOf_iff.mp ⟨_, hmode⟩,
      (exists_action_iff (isSome_of_modeOf hmode)).mp ⟨_, haction⟩⟩
  · rintro ⟨e, he, hwell⟩
    obtain ⟨path, hpath⟩ := exists_contained_iff.mpr hwell.path
    obtain ⟨mode, hmode⟩ := exists_modeOf_iff.mpr hwell.mode
    obtain ⟨action, haction⟩ := (exists_action_iff (isSome_of_modeOf hmode)).mpr hwell.complete
    refine Result.exists_bind_iff.mpr ⟨e, ofReading_eq_ok.mpr he, ?_⟩
    refine Result.exists_bind_iff.mpr ⟨path, hpath, ?_⟩
    refine Result.exists_bind_iff.mpr ⟨mode, hmode, ?_⟩
    exact Result.exists_bind_iff.mpr ⟨action, haction, _, rfl⟩

theorem exists_monitor_iff {d : Datum} : (∃ directive, monitor capability d = .ok directive)
    ↔ ∃ request, monitorReader capability d = .ok request ∧ request.path.StaysBelow := by
  constructor
  · rintro ⟨directive, h⟩
    obtain ⟨request, hrequest, h⟩ := Result.bind_eq_ok.mp h
    obtain ⟨path, hpath, -⟩ := Result.bind_eq_ok.mp h
    exact ⟨request, ofReading_eq_ok.mp hrequest, exists_contained_iff.mp ⟨_, hpath⟩⟩
  · rintro ⟨request, hrequest, hpath⟩
    obtain ⟨path, hpath⟩ := exists_contained_iff.mpr hpath
    refine Result.exists_bind_iff.mpr ⟨request, ofReading_eq_ok.mpr hrequest, ?_⟩
    exact Result.exists_bind_iff.mpr ⟨path, hpath, _, rfl⟩

theorem exists_await_iff {d : Datum} : (∃ directive, await d = .ok directive)
    ↔ ∃ wait, waitReader d = .ok wait := by
  simp only [await, Result.exists_map_iff, ofReading_eq_ok]

theorem exists_presence_iff {d : Datum} : (∃ directive, presence d = .ok directive)
    ↔ ∃ path present, presenceReader d = .ok (path, present) ∧ path.StaysBelow := by
  constructor
  · rintro ⟨directive, h⟩
    obtain ⟨⟨path, present⟩, hread, h⟩ := Result.bind_eq_ok.mp h
    obtain ⟨path', hpath, -⟩ := Result.bind_eq_ok.mp h
    exact ⟨path, present, ofReading_eq_ok.mp hread, exists_contained_iff.mp ⟨_, hpath⟩⟩
  · rintro ⟨path, present, hread, hpath⟩
    obtain ⟨path', hpath⟩ := exists_contained_iff.mpr hpath
    refine Result.exists_bind_iff.mpr ⟨_, ofReading_eq_ok.mpr hread, ?_⟩
    exact Result.exists_bind_iff.mpr ⟨path', hpath, _, rfl⟩

theorem exists_fileState_iff {d : Datum} : (∃ directive, fileState d = .ok directive)
    ↔ ∃ path e, fileStateReader d = .ok (path, e) ∧ path.StaysBelow ∧ e.WellFormed := by
  constructor
  · rintro ⟨directive, h⟩
    obtain ⟨⟨path, e⟩, hread, h⟩ := Result.bind_eq_ok.mp h
    obtain ⟨path', hpath, h⟩ := Result.bind_eq_ok.mp h
    obtain ⟨expect, hexpect, -⟩ := Result.bind_eq_ok.mp h
    exact ⟨path, e, ofReading_eq_ok.mp hread, exists_contained_iff.mp ⟨_, hpath⟩,
      exists_expectations_iff.mp ⟨_, hexpect⟩⟩
  · rintro ⟨path, e, hread, hpath, hwell⟩
    obtain ⟨path', hpath⟩ := exists_contained_iff.mpr hpath
    obtain ⟨expect, hexpect⟩ := exists_expectations_iff.mpr hwell
    refine Result.exists_bind_iff.mpr ⟨_, ofReading_eq_ok.mpr hread, ?_⟩
    refine Result.exists_bind_iff.mpr ⟨path', hpath, ?_⟩
    exact Result.exists_bind_iff.mpr ⟨expect, hexpect, _, rfl⟩

theorem exists_read_iff {kind : String} {d : Datum} :
    (∃ directive, read capability kind d = .ok directive) ↔ Body capability d kind := by
  constructor
  · rintro ⟨directive, h⟩
    unfold read at h
    split at h
    · obtain ⟨e, he, hwell⟩ := exists_fixture_iff.mp ⟨_, h⟩
      exact .fixture he hwell
    · obtain ⟨request, hrequest, hpath⟩ := exists_monitor_iff.mp ⟨_, h⟩
      exact .monitor hrequest hpath
    · obtain ⟨wait, hwait⟩ := exists_await_iff.mp ⟨_, h⟩
      exact .await hwait
    · obtain ⟨path, present, hread, hpath⟩ := exists_presence_iff.mp ⟨_, h⟩
      exact .presence hread hpath
    · obtain ⟨path, e, hread, hpath, hwell⟩ := exists_fileState_iff.mp ⟨_, h⟩
      exact .fileState hread hpath hwell
    · cases h
  · intro h
    cases h with
    | fixture h hwell => exact exists_fixture_iff.mpr ⟨_, h, hwell⟩
    | monitor h hpath => exact exists_monitor_iff.mpr ⟨_, h, hpath⟩
    | await h => exact exists_await_iff.mpr ⟨_, h⟩
    | presence h hpath => exact exists_presence_iff.mpr ⟨_, _, h, hpath⟩
    | fileState h hpath hwell => exact exists_fileState_iff.mpr ⟨_, _, h, hpath, hwell⟩

/-- What a step goes by: its name if that is a text, and its number
otherwise. -/
def called (index : Nat) : Datum → String
  | .map es =>
    match Datum.lookup "name" es with
    | some (.text name) => name
    | _ => numbered index
  | _ => numbered index

section Named

variable {index : Nat} {name : String} {es : List (Datum × Datum)}

theorem exists_named_iff : (∃ step, ofDatum.named capability index name es = .ok step)
    ↔ ∃ kind, Datum.lookup "kind" es = some (.text kind)
      ∧ Body capability (.map (Datum.remove "kind" es).2) kind := by
  simp only [← exists_read_iff, ← Datum.fst_remove]
  unfold ofDatum.named
  generalize Datum.remove "kind" es = taken
  constructor
  · rintro ⟨step, h⟩
    split at h
    · split at h
      · rename_i hread
        exact ⟨_, rfl, _, hread⟩
      · cases h
    · cases h
  · rintro ⟨kind, hkind, directive, hread⟩
    obtain ⟨value, rest⟩ := taken
    obtain rfl : value = some (.text kind) := hkind
    dsimp only at hread ⊢
    exact ⟨⟨name, index, directive⟩, by rw [hread]⟩

theorem named_ok {step : Step} (h : ofDatum.named capability index name es = .ok step) :
    step.name = name ∧ step.index = index := by
  unfold ofDatum.named at h
  split at h
  · split at h
    · cases h
      exact ⟨rfl, rfl⟩
    · cases h
  · cases h

theorem named_error {called : String} {fault : StepFault}
    (h : ofDatum.named capability index name es = .error (called, fault)) : called = name := by
  unfold ofDatum.named at h
  split at h
  · split at h
    · cases h
    · cases h
      rfl
  · cases h
    rfl

end Named

/-- A step that is a mapping has a name that is a text, or none. -/
theorem ofDatum_map_cases (index : Nat) (es : List (Datum × Datum)) :
    (∀ v, Datum.lookup "name" es = some v → ∃ name, v = .text name)
        ∧ ofDatum capability index (.map es)
          = ofDatum.named capability index (called index (.map es)) (Datum.remove "name" es).2
      ∨ (¬ ∀ v, Datum.lookup "name" es = some v → ∃ name, v = .text name)
        ∧ ofDatum capability index (.map es) = .error (called index (.map es), .nameNotText) := by
  rw [ofDatum, called, ← Datum.fst_remove]
  obtain ⟨_ | v, rest⟩ := Datum.remove "name" es
  · simp
  · cases v <;> simp

variable {index : Nat} {x : Datum}

/-- **One step.** A step can be read just if it is well-formed. -/
theorem exists_ofDatum_iff :
    (∃ step, ofDatum capability index x = .ok step) ↔ WellFormed capability x := by
  cases x with
  | map es =>
      rcases ofDatum_map_cases index es with ⟨hname, heq⟩ | ⟨hname, heq⟩
      · rw [heq, exists_named_iff]
        constructor
        · rintro ⟨kind, hkind, hbody⟩
          exact .step hname hkind hbody
        · rintro ⟨-, hkind, hbody⟩
          exact ⟨_, hkind, hbody⟩
      · rw [heq]
        refine iff_of_false (by simp) ?_
        rintro ⟨hname', -, -⟩
        exact hname hname'
  | null | bool _ | number _ | text _ | list _ | tagged _ _ =>
      refine iff_of_false (by simp [ofDatum]) fun h => ?_
      cases h

theorem called_of_ofDatum {step : Step} (h : ofDatum capability index x = .ok step) :
    step.name = called index x ∧ step.index = index := by
  cases x with
  | map es =>
      rcases ofDatum_map_cases index es with ⟨-, heq⟩ | ⟨-, heq⟩
      · exact named_ok (heq.symm.trans h)
      · cases heq.symm.trans h
  | null | bool _ | number _ | text _ | list _ | tagged _ _ => cases h

theorem called_of_error {name : String} {fault : StepFault}
    (h : ofDatum capability index x = .error (name, fault)) : name = called index x := by
  cases x with
  | map es =>
      rcases ofDatum_map_cases index es with ⟨-, heq⟩ | ⟨-, heq⟩
      · exact named_error (heq.symm.trans h)
      · cases heq.symm.trans h
        rfl
  | null | bool _ | number _ | text _ | list _ | tagged _ _ =>
      cases h
      rfl

/-! ## Lists of steps -/

/-- A list of steps is read item by item, each with its place. -/
theorem ofList_eq_mapM : ∀ {items : List Datum} {index : Nat}, ofList capability index items
    = (items.zipIdx index).mapM fun p => ofDatum capability p.2 p.1
  | [], _ => rfl
  | x :: r, index => by
      rw [ofList, List.zipIdx_cons, List.mapM_cons, ofList_eq_mapM]
      cases ofDatum capability index x with
      | error fault => rfl
      | ok step => rfl

variable {items : List Datum}

theorem exists_ofList_iff : (∃ steps, ofList capability 0 items = .ok steps)
    ↔ ∀ x ∈ items, WellFormed capability x := by
  rw [ofList_eq_mapM, Result.exists_mapM_iff]
  simp only [exists_ofDatum_iff]
  constructor
  · intro h x hx
    obtain ⟨i, hi⟩ := List.getElem?_of_mem hx
    exact h (x, i) (List.mem_zipIdx_iff_getElem?.mpr hi)
  · rintro h ⟨x, i⟩ hx
    exact h x (List.mem_of_getElem? (List.mem_zipIdx_iff_getElem?.mp hx))

/-- **The first ill-formed step.** The fault of a list is that of a step
that is ill-formed, and goes by what that step goes by; every step before
it is well-formed. -/
theorem ofList_eq_error {name : String} {fault : StepFault}
    (h : ofList capability 0 items = .error (name, fault)) :
    ∃ i x, items[i]? = some x ∧ ¬ WellFormed capability x ∧ name = called i x
      ∧ ∀ j < i, ∀ y, items[j]? = some y → WellFormed capability y := by
  rw [ofList_eq_mapM, Result.mapM_eq_error] at h
  obtain ⟨before, ⟨x, i⟩, after, heq, hx, hbefore⟩ := h
  have hget : ∀ j : Nat, items.zipIdx[j]? = items[j]?.map fun x => (x, j) := by
    intro j
    rw [List.getElem?_zipIdx]
    simp
  have hi := hget before.length
  rw [heq, List.getElem?_append_right (Nat.le_refl _), Nat.sub_self, List.getElem?_cons_zero] at hi
  obtain ⟨x', hitem, hsame⟩ := Option.map_eq_some_iff.mp hi.symm
  obtain ⟨rfl, rfl⟩ := Prod.mk.inj hsame
  refine ⟨_, _, hitem, fun hwell => ?_, called_of_error hx, fun j hj y hy => ?_⟩
  · obtain ⟨step, hstep⟩ := exists_ofDatum_iff.mpr hwell
    cases hx.symm.trans hstep
  · have hj' := hget j
    rw [heq, List.getElem?_append_left hj, hy] at hj'
    exact exists_ofDatum_iff.mp (hbefore _ (List.mem_of_getElem? hj'))

end Step

end Conformance
