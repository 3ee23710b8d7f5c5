import Mathlib
import Conformance.Proofs.Datum.Equality
import Conformance.Proofs.Script.FileStates

/-!
# Expectations that can fail

A check that every file passes says nothing about a file. Only one check
is of that sort: that of an owner or a group without an id and without a
name (`AttributeCheck.canFail_iff`). A script has it just where its
document gives an owner or a group by a value that says neither, which is
read without a word (`Script.ofText_canFail_iff`).
-/

namespace Conformance

/-! ## Checks -/

/-- An attribute that a file can have: ids have 32 bits, and times 64 with
a sign. -/
def Attribute.InRange : Attribute → Prop
  | .fileType _ | .permissions _ => True
  | .identity owner => owner.id < 0x100000000
  | .timestamp time =>
    -0x8000000000000000 ≤ time.millis ∧ time.millis ≤ 0x7FFFFFFFFFFFFFFF
  | .acl entries => ∀ e ∈ entries, ∀ q, e.qualifier = some q → q.id < 0x100000000

namespace AttributeCheck

/-- Some attribute of the kind does not pass. -/
def CanFail (c : AttributeCheck) : Prop :=
  ∃ a : Attribute, a.kind = c.kind ∧ a.InRange ∧ c.accepts a = false

theorem accepts_anybody {kind : IdentityKind} {a : Attribute} (ha : a.kind = .identity kind) :
    (identity kind none none).accepts a = true := by
  cases a with
  | identity owner => rfl
  | fileType _ | permissions _ | timestamp _ | acl _ => cases ha

/-- **Checks.** All but one can fail. -/
theorem canFail_iff (c : AttributeCheck) : c.CanFail ↔ ∀ kind, c ≠ .identity kind none none := by
  constructor
  · rintro ⟨a, hkind, -, hrejects⟩ kind rfl
    rw [accepts_anybody hkind] at hrejects
    cases hrejects
  · intro hne
    cases c with
    | fileType type =>
        by_cases htype : type = .regular
        · exact ⟨.fileType .directory, rfl, trivial, by simp [accepts, htype]⟩
        · exact ⟨.fileType .regular, rfl, trivial, by simp [accepts, htype]⟩
    | permissions perms =>
        by_cases hperms : perms = ⟨0⟩
        · exact ⟨.permissions ⟨1⟩, rfl, trivial, by simp [accepts, hperms]⟩
        · exact ⟨.permissions ⟨0⟩, rfl, trivial, by simp [accepts, hperms]⟩
    | identity kind id name =>
        cases id with
        | some id =>
            by_cases hid : id = 0
            · exact ⟨.identity ⟨kind, 1, ""⟩, rfl, by simp [Attribute.InRange],
                by simp [accepts, hid]⟩
            · exact ⟨.identity ⟨kind, 0, ""⟩, rfl, by simp [Attribute.InRange],
                by simp [accepts, hid]⟩
        | none =>
            cases name with
            | some name =>
                by_cases hname : name = ""
                · exact ⟨.identity ⟨kind, 0, "root"⟩, rfl, by simp [Attribute.InRange],
                    by simp [accepts, hname]⟩
                · exact ⟨.identity ⟨kind, 0, ""⟩, rfl, by simp [Attribute.InRange],
                    by simp [accepts, hname]⟩
            | none => exact absurd rfl (hne kind)
    | timestamp kind millis =>
        by_cases hmillis : millis = 0
        · exact ⟨.timestamp ⟨kind, 1⟩, rfl, by simp [Attribute.InRange],
            by simp [accepts, hmillis]⟩
        · exact ⟨.timestamp ⟨kind, 0⟩, rfl, by simp [Attribute.InRange],
            by simp [accepts, hmillis]⟩
    | acl checks =>
        cases checks with
        | nil =>
            exact ⟨.acl [⟨.mask, none, ⟨0⟩⟩], rfl, by simp [Attribute.InRange], rfl⟩
        | cons c r => exact ⟨.acl [], rfl, by simp [Attribute.InRange], rfl⟩

end AttributeCheck

/-! ## Scripts -/

/-- A check is of an owner or a group that the document leaves open. -/
theorem Step.canFail_iff {v : Datum} {e : StateEntries} (h : StateEntries.reader v = .ok e)
    {c : AttributeCheck} (hc : e.Demands c) :
    c.CanFail ↔ ¬ ∃ kind y, c.kind = .identity kind
      ∧ v.Leads [.key (AttributeKind.identity kind).name] y ∧ IdentityLiteral.Anybody y := by
  rw [AttributeCheck.canFail_iff]
  constructor
  · rintro hne ⟨kind, y, hkind, hway, hy⟩
    cases c with
    | identity kind' id name =>
        obtain rfl : kind' = kind := AttributeKind.identity.inj hkind
        have hread := identity_of_leads h hway
        rw [StateEntries.demands_identity.mp hc] at hread
        obtain ⟨-, hy'⟩ := Reader.optional_eq_some.mp hread
        obtain ⟨rfl, rfl⟩ := IdentityLiteral.mk.inj
          ((IdentityLiteral.reader_anybody hy').mpr hy)
        exact hne kind' rfl
    | fileType _ | permissions _ | timestamp _ _ | acl _ => cases hkind
  · rintro hno kind rfl
    obtain ⟨y, hway, hy⟩ := leads_of_identity h (StateEntries.demands_identity.mp hc)
    exact hno ⟨kind, y, rfl, hway, (IdentityLiteral.reader_anybody hy).mp rfl⟩

/-- The way to what a step expects of the attribute of a kind. -/
def Script.wayTo (j : Nat) (kind : AttributeKind) : List Datum.Turn :=
  [.key "steps", .item j, .key "expect", .key kind.name]

/-- **Expectations that can fail.** Of a script that was read, a step about
a file has a check of each kind that its document gives with a value. Such
a check can fail, unless it is of an owner or a group and the value says
neither id nor name. -/
theorem Script.ofText_canFail_iff {text : String} {s : Script} (h : ofText text = .ok s) :
    ∃ d, Yaml.parse? text = some d ∧ ∀ j step, s.steps[j]? = some step →
      ∀ path expect, step.directive = .fileState path expect →
        (∀ kind, (∃ c ∈ expect.checks, c.kind = kind)
          ↔ ∃ v, d.Leads (wayTo j kind) v ∧ v ≠ .null)
        ∧ ∀ c ∈ expect.checks, c.CanFail ↔ ¬ ∃ kind v, c.kind = .identity kind
          ∧ d.Leads (wayTo j (.identity kind)) v ∧ IdentityLiteral.Anybody v := by
  unfold ofText at h
  split at h
  · rename_i d hd
    refine ⟨d, hd, fun j step hj path expect hstep => ?_⟩
    obtain ⟨capability, x, hx, hway⟩ := step_leads h hj
    obtain ⟨v, e, hv, hexpect, hway'⟩ := Step.fileState_leads hx hstep
    simp only [wayTo, hway, hway']
    refine ⟨fun kind => ?_, fun c hc => ?_⟩
    · rw [Step.exists_check_iff hexpect, Step.gives_iff hv]
    · exact Step.canFail_iff hv ((Step.mem_expectations hexpect).mp hc)
  · cases h

/-! ## An open group -/

namespace OpenGroup

/-- A file of the first user, and of any group. -/
def text : String :=
  "\x7bkind: file, steps: [\x7bkind: file-state, path: f, "
    ++ "expect: \x7bowner: \x7bid: 0\x7d, group: \x7b\x7d\x7d\x7d]\x7d"

def owner : Datum := .map [(.text "id", .number (.int 0))]

def expected : Datum := .map [(.text "owner", owner), (.text "group", .map [])]

def item : Datum :=
  .map [(.text "kind", .text "file-state"), (.text "path", .text "f"), (.text "expect", expected)]

def document : Datum := .map [(.text "kind", .text "file"), (.text "steps", .list [item])]

def step : Step :=
  ⟨"#1", 0, .fileState (Path.ofText "f")
    ⟨[.identity .user (some 0) none, .identity .group none none]⟩⟩

theorem parsed : Yaml.parse? text = some document := by
  decide +kernel

theorem readable : ∃ s, Script.ofText text = .ok s ∧ s.steps = [step] := by
  rw [Script.ofText, parsed]
  exact ⟨_, rfl, by cbv⟩

/-- The owner that the document gives has an id. -/
theorem owner_eq {v : Datum} (h : document.Leads (Script.wayTo 0 (.identity .user)) v) :
    v = owner := by
  obtain ⟨steps, hsteps, h⟩ := h.of_key
  obtain ⟨xs, x, hxs, hx, h⟩ := h.of_item
  obtain ⟨expect, hexpect, h⟩ := h.of_key
  obtain ⟨_, howner, ⟨⟩⟩ := h.of_key
  obtain rfl : steps = .list [item] := by
    simpa [document, Datum.holds_cons, Datum.holds_nil] using hsteps
  cases hxs
  cases hx
  obtain rfl : expect = expected := by
    simpa [item, Datum.holds_cons, Datum.holds_nil] using hexpect
  simpa [expected, Datum.holds_cons, Datum.holds_nil, AttributeKind.name] using howner

theorem leads_group : document.Leads (Script.wayTo 0 (.identity .group)) (.map []) := by
  have hsteps : document.Holds "steps" (.list [item]) := by simp [document, Datum.holds_cons]
  have hexpect : item.Holds "expect" expected := by simp [item, Datum.holds_cons]
  have hgroup : expected.Holds "group" (.map []) := by simp [expected, Datum.holds_cons]
  exact .key hsteps (.item rfl rfl (.key hexpect (.key hgroup .here)))

end OpenGroup

/-- Of the two checks of a script one can fail. -/
theorem Script.ofText_canFail_iff_openGroup :
    ∃ s, ofText OpenGroup.text = .ok s ∧ s.steps = [OpenGroup.step]
      ∧ (AttributeCheck.identity .user (some 0) none).CanFail
      ∧ ¬ (AttributeCheck.identity .group none none).CanFail := by
  obtain ⟨s, hs, hsteps⟩ := OpenGroup.readable
  obtain ⟨d, hd, hchecks⟩ := Script.ofText_canFail_iff hs
  obtain rfl := Option.some.inj (OpenGroup.parsed.symm.trans hd)
  obtain ⟨-, hchecks⟩ := hchecks 0 OpenGroup.step (by rw [hsteps]; rfl) _ _ rfl
  refine ⟨s, hs, hsteps, (hchecks _ (by simp)).mpr ?_, fun hfails => ?_⟩
  · rintro ⟨kind, v, hkind, hway, hany⟩
    obtain rfl := AttributeKind.identity.inj hkind
    rw [OpenGroup.owner_eq hway] at hany
    exact absurd (hany (.text "id") _ (List.mem_singleton_self _) (.inl rfl)) (by simp)
  · exact (hchecks _ (by simp)).mp hfails
      ⟨.group, .map [], rfl, OpenGroup.leads_group, fun _ _ h => nomatch h⟩

/-- A script can be read whose check of the group every group passes. -/
theorem Script.ofText_check_without_fail :
    ∃ s step path expect c, ofText OpenGroup.text = .ok s ∧ step ∈ s.steps
      ∧ step.directive = .fileState path expect ∧ c ∈ expect.checks
      ∧ ∀ a : Attribute, a.kind = c.kind → c.accepts a = true := by
  obtain ⟨s, hs, hsteps⟩ := OpenGroup.readable
  refine ⟨s, OpenGroup.step, _, _, .identity .group none none, hs, by simp [hsteps], rfl, ?_,
    fun a => AttributeCheck.accepts_anybody⟩
  simp

end Conformance
