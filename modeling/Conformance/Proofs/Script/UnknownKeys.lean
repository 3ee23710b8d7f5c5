import Conformance.Proofs.Datum.Equality
import Conformance.Proofs.Script.FixedKeys

/-!
# Unknown keys

A key that comes to a mapping with fixed keys and is not known there is
refused, with one exception: the mapping form of an owner is no closed
record. A key that comes to it is passed over without a word, and the
script is the one that it was (`Script.ofText_withEntry`).
-/

namespace Conformance

open Datum (Turn)

/-! ## The owner of a file -/

theorem IdentityLiteral.reader_overlooks {k v : Datum} (hover : KeySet.owner.Overlooks k v)
    (hforeign : ¬ KeySet.owner.Defines k) (i : Nat) {d : Datum} {es : List (Datum × Datum)}
    (hd : d.untag = .map es) {a : IdentityLiteral} (h : reader d = .ok a) :
    reader (d.edit (.withEntry i k v) []) = reader d := by
  obtain rfl := eq_map_of_reader hd h
  obtain ⟨hkey, htag⟩ := hover
  obtain ⟨name, hname⟩ := Option.isSome_iff_exists.mp hkey
  have hne : ∀ n ∈ ["id", "name"], name ≠ n := by
    rintro n hn rfl
    exact hforeign ⟨name, hn, hname⟩
  have hinsert := reader_insert (es.take i) (es.drop i) hname
    (hne "id" (by simp)) (hne "name" (by simp)) htag
  rwa [List.take_append_drop] at hinsert

namespace Step

variable {capability : String} {index i : Nat} {k v : Datum}

/-- The fields of what a file should be like. -/
def stateFields : List Reader.Field :=
  [.of "file-type" (Reader.optional (Reader.choice .script FileType.names)),
    .of "permissions" (Reader.optional PermissionLiteral.reader),
    .of "owner" (Reader.optional IdentityLiteral.reader),
    .of "group" (Reader.optional IdentityLiteral.reader),
    .of "atime" (Reader.optional Reader.signed64),
    .of "mtime" (Reader.optional Reader.signed64),
    .of "ctime" (Reader.optional Reader.signed64),
    .of "acl" (Reader.optional (Reader.list .script Reader.text))]

/-- What a file should be like is read the same with an overlooked entry
of its owner. -/
theorem state_overlooks (hover : KeySet.owner.Overlooks k v)
    (hforeign : ¬ KeySet.owner.Defines k) {name : String}
    (hname : name = "owner" ∨ name = "group") {d x : Datum} (hway : d.Leads [.key name] x)
    {es : List (Datum × Datum)} (hx : x.untag = .map es) {e : StateEntries}
    (h : StateEntries.reader d = .ok e) :
    StateEntries.reader (d.edit (.withEntry i k v) [.key name]) = .ok e := by
  obtain ⟨_, hw, ⟨⟩⟩ := hway.of_key
  obtain ⟨l, hl, -⟩ := id hw
  obtain ⟨r, hr, h⟩ := Result.bind_eq_ok.mp h
  have hadmits := Reader.entries_admits hr
  have hfield : ∀ f ∈ stateFields, f.name = name →
      f = .of name (Reader.optional IdentityLiteral.reader) := by
    rcases hname with rfl | rfl <;> simp [stateFields, Reader.Field.of]
  obtain ⟨b, hb⟩ := hadmits.read_field hw _ hfield
  obtain ⟨a, ha⟩ := Reader.optional_of_map hx hb
  have hsame : Reader.optional IdentityLiteral.reader (x.edit (.withEntry i k v) [])
      = Reader.optional IdentityLiteral.reader x := by
    obtain rfl := IdentityLiteral.eq_map_of_reader hx ha
    exact congrArg (Except.map some) (IdentityLiteral.reader_overlooks hover hforeign i hx ha)
  refine Result.bind_eq_ok.mpr ⟨r.change name (Datum.edit (.withEntry i k v) []), ?_, ?_⟩
  · exact Reader.entries_change_ok hr hl (Datum.untag_edit_key hl) hw _ hfield
      (congrArg (Except.map fun _ => ()) hsame)
  · have howner : (r.change name (Datum.edit (.withEntry i k v) [])).optional name
        IdentityLiteral.reader = r.optional name IdentityLiteral.reader := by
      refine Reader.change_optional fun _ w' hw' => ?_
      obtain rfl := Option.some.inj (hw'.symm.trans (hadmits.value name x hw))
      exact hsame
    have hother : ∀ {α : Type} (reader : Reader α) (name' : String), name' ≠ name →
        (r.change name (Datum.edit (.withEntry i k v) [])).optional name' reader
          = r.optional name' reader :=
      fun reader name' hne => Reader.change_optional fun heq => absurd heq hne
    rcases hname with rfl | rfl
    · simpa [howner, hother] using h
    · simpa [howner, hother] using h

/-- A step that asserts what a file is like is read the same where what it
expects is read the same. -/
theorem fileState_change {d d' v : Datum} {l : List (Datum × Datum)} {g : Datum → Datum}
    (hd : d.untag = .map l) (hd' : d'.untag = .map (l.map (Datum.changeEntry "expect" g)))
    (hv : d.Holds "expect" v) {directive : Directive} (h : fileState d = .ok directive)
    (hg : ∀ e, StateEntries.reader v = .ok e → StateEntries.reader (g v) = .ok e) :
    fileState d' = .ok directive := by
  obtain ⟨⟨path, e⟩, hread, h⟩ := Result.bind_eq_ok.mp h
  obtain ⟨r, hr, hread⟩ := Result.bind_eq_ok.mp (ofReading_eq_ok.mp hread)
  have hadmits := Reader.entries_admits hr
  have hfield : ∀ f : Reader.Field,
      f ∈ [.of "path" Path.reader, .of "expect" StateEntries.reader] → f.name = "expect" →
        f = .of "expect" StateEntries.reader := by
    simp [Reader.Field.of]
  have hsame : StateEntries.reader (g v) = StateEntries.reader v := by
    obtain ⟨e, he⟩ := hadmits.read_field hv _ hfield
    rw [he, hg e he]
  have hchange := Reader.entries_change_ok hr hd hd' hv _ hfield
    (congrArg (Except.map fun _ => ()) hsame)
  have hexpect : (r.change "expect" g).required "expect" StateEntries.reader
      = r.required "expect" StateEntries.reader := by
    refine Reader.change_required fun _ v' hv' => ?_
    obtain rfl := Option.some.inj (hv'.symm.trans (hadmits.value _ v hv))
    exact hsame
  have hpath : (r.change "expect" g).required "path" Path.reader
      = r.required "path" Path.reader :=
    Reader.change_required fun heq => absurd heq (by decide)
  have hread' : fileStateReader d' = .ok (path, e) := by
    refine Result.bind_eq_ok.mpr ⟨_, hchange, ?_⟩
    rw [hpath, hexpect]
    exact hread
  exact Result.bind_eq_ok.mpr ⟨(path, e), ofReading_eq_ok.mpr hread', h⟩

section

variable {f : Datum × Datum → Datum × Datum} (hf : ∀ e, (f e).1 = e.1)
include hf

/-- A step is read the same where the entries change that its kind reads,
and are read the same. -/
theorem ofDatum_map {es : List (Datum × Datum)} {step : Step}
    (hname : ∀ e, e.1 = .text "name" → f e = e) (hkind : ∀ e, e.1 = .text "kind" → f e = e)
    (h : ofDatum capability index (.map es) = .ok step)
    (hread : ∀ kind rest, Leaves kind es rest → read capability kind (.map rest) = .ok step.directive →
        read capability kind (.map (rest.map f)) = .ok step.directive) :
    ofDatum capability index (.map (es.map f)) = .ok step := by
  have hnamed : ∀ name left, (∀ e ∈ es, e ∈ left ∨ e.1 = .text "name") → (∀ e ∈ left, e ∈ es) →
      ofDatum.named capability index name left = .ok step →
        ofDatum.named capability index name (left.map f) = .ok step := by
    intro name left hleft hsub h
    unfold ofDatum.named at h ⊢
    rw [Datum.remove_map hf hkind]
    split at h
    · rename_i kind rest hremove
      split at h
      · rename_i directive hdirective
        cases h
        have hleaves : Leaves kind es rest := by
          refine ⟨hsub _ (Datum.mem_of_remove (by rw [hremove])), fun e he => ?_,
            fun e he => hsub _ (Datum.mem_of_mem_remove (by rwa [hremove]))⟩
          rcases hleft e he with he | he
          · exact (Datum.mem_of_remove_eq hremove he).imp id .inr
          · exact .inr (.inl he)
        rw [hremove]
        dsimp only
        rw [hread kind rest hleaves hdirective]
      · cases h
    · cases h
  have hleft : ∀ e ∈ es, e ∈ (Datum.remove "name" es).2 ∨ e.1 = .text "name" :=
    fun e he => (Datum.mem_remove "name" he).imp id And.left
  have hsub : ∀ e ∈ (Datum.remove "name" es).2, e ∈ es := fun e => Datum.mem_of_mem_remove
  simp only [ofDatum, Datum.remove_map hf hname] at h ⊢
  split at h
  · exact hnamed _ _ hleft hsub h
  · exact hnamed _ _ hleft hsub h
  · cases h

end

/-- An overlooked entry of an owner makes no difference to a step. -/
theorem ofDatum_overlooks (hover : KeySet.owner.Overlooks k v)
    (hforeign : ¬ KeySet.owner.Defines k) {name : String}
    (hname : name = "owner" ∨ name = "group") {es : List (Datum × Datum)}
    (hkind : (.text "kind", .text "file-state") ∈ es) {x : Datum}
    (hway : (Datum.map es).Leads [.key "expect", .key name] x)
    {es' : List (Datum × Datum)} (hx : x.untag = .map es') {step : Step}
    (h : ofDatum capability index (.map es) = .ok step) :
    ofDatum capability index
      ((Datum.map es).edit (.withEntry i k v) [.key "expect", .key name]) = .ok step := by
  obtain ⟨v₀, hv₀, hrest⟩ := hway.of_key
  have hunchanged : ∀ key, key ≠ "expect" → ∀ e : Datum × Datum, e.1 = .text key →
      Datum.changeEntry "expect" (Datum.edit (.withEntry i k v) [.key name]) e = e := by
    intro key hkey e he
    refine Datum.changeEntry_of_ne ?_
    rw [he]
    exact fun heq => hkey (Option.some.inj heq)
  refine ofDatum_map Datum.changeEntry_key (hunchanged _ (by decide)) (hunchanged _ (by decide)) h
    fun kind rest hleaves hread => ?_
  obtain rfl := hleaves.kind_unique hread hkind
  exact fileState_change rfl rfl (hleaves.holds (by decide) (by decide) hv₀) hread
    fun e => state_overlooks hover hforeign hname hrest hx

/-- A list of steps is read the same where one item is. -/
theorem ofList_modify {g : Datum → Datum} : ∀ {items : List Datum} {index i : Nat} {x : Datum}
    {steps : List Step}, items[i]? = some x →
      (∀ index step, ofDatum capability index x = .ok step →
        ofDatum capability index (g x) = .ok step) →
      ofList capability index items = .ok steps →
        ofList capability index (items.modify i g) = .ok steps
  | [], _, _, _, _, hx, _, _ => by simp at hx
  | d :: r, index, i, x, steps, hx, hg, h => by
      rw [ofList] at h
      cases hd : ofDatum capability index d with
      | error fault =>
          rw [hd] at h
          cases h
      | ok step =>
          rw [hd] at h
          obtain ⟨rest, hrest, rfl⟩ := Result.map_eq_ok.mp h
          cases i with
          | zero =>
              obtain rfl := Option.some.inj hx
              rw [List.modify_zero_cons, ofList, hg index step hd]
              exact Result.map_eq_ok.mpr ⟨rest, hrest, rfl⟩
          | succ i =>
              rw [List.modify_succ_cons, ofList, hd]
              exact Result.map_eq_ok.mpr ⟨rest, ofList_modify hx hg hrest, rfl⟩

end Step

/-! ## The document -/

namespace Script

theorem bodyReader_change {d d' v : Datum} {l : List (Datum × Datum)} {g : Datum → Datum}
    (hd : d.untag = .map l) (hd' : d'.untag = .map (l.map (Datum.changeEntry "steps" g)))
    (hv : d.Holds "steps" v) {xs xs' : List Datum} (hxs : v.untag = .list xs)
    (hxs' : (g v).untag = .list xs') {capability : String} {items : List Datum}
    (h : bodyReader d = .ok (capability, items)) : bodyReader d' = .ok (capability, xs') := by
  obtain ⟨r, hr, h⟩ := Result.bind_eq_ok.mp h
  have hadmits := Reader.entries_admits hr
  have hchange := Reader.entries_change_ok hr hd hd' hv
    (Reader.list .script fun step => .ok step) (by simp [Reader.Field.of])
    (by simp [Reader.Field.of, list_self hxs, list_self hxs', Except.map])
  obtain ⟨cap, hcap, h⟩ := Result.bind_eq_ok.mp h
  obtain ⟨steps, -, h⟩ := Result.bind_eq_ok.mp h
  cases h
  have hheld : d'.Holds "steps" (g v) := by
    obtain ⟨l', hl', k, he, hk⟩ := hv
    cases hd.symm.trans hl'
    refine ⟨_, hd', k, ?_, hk⟩
    have hmem := List.mem_map_of_mem (f := Datum.changeEntry "steps" g) he
    rwa [Datum.changeEntry_of_eq hk] at hmem
  refine Result.bind_eq_ok.mpr ⟨_, hchange, Result.bind_eq_ok.mpr ⟨capability, ?_, ?_⟩⟩
  · rw [Reader.change_default_of_ne (by decide)]
    exact hcap
  · refine Result.bind_eq_ok.mpr ⟨xs', ?_, rfl⟩
    rw [Reader.default_of_holds hchange hheld]
    exact list_self hxs'

section

variable {f : Datum × Datum → Datum × Datum} (hf : ∀ e, (f e).1 = e.1)
include hf

theorem takeText_map {key : String} (hkey : ∀ e, e.1 = .text key → f e = e)
    (es : List (Datum × Datum)) :
    takeText key (es.map f) = (takeText key es).map fun p => (p.1, p.2.map f) := by
  unfold takeText
  rw [Datum.remove_map hf hkey]
  rcases Datum.remove key es with ⟨_ | value, rest⟩
  · rfl
  · cases value <;> rfl

theorem foldl_remove_map : ∀ (keys : List String) (es : List (Datum × Datum)),
    (∀ key ∈ keys, ∀ e, e.1 = .text key → f e = e) →
      keys.foldl (fun es key => (Datum.remove key es).2) (es.map f)
        = (keys.foldl (fun es key => (Datum.remove key es).2) es).map f
  | [], _, _ => rfl
  | key :: keys, es, hkeys => by
      rw [List.foldl_cons, List.foldl_cons,
        Datum.remove_map hf (hkeys key (List.mem_cons_self ..))]
      exact foldl_remove_map keys _ fun key' h => hkeys key' (List.mem_cons_of_mem _ h)

/-- A document is read the same where its body changes and its steps are
read the same. -/
theorem ofDatum_map {es : List (Datum × Datum)} {s : Script}
    (hown : ∀ key ∈ ownKeys, ∀ e, e.1 = .text key → f e = e) (h : ofDatum (.map es) = .ok s)
    (hbody : ∀ capability items, bodyReader (.map (remainder es)) = .ok (capability, items) →
      Step.ofList capability 0 items = .ok s.steps → ∃ items',
        bodyReader (.map ((remainder es).map f)) = .ok (capability, items')
          ∧ Step.ofList capability 0 items' = .ok s.steps) :
    ofDatum (.map (es.map f)) = .ok s := by
  simp only [ofDatum] at h ⊢
  obtain ⟨kind, hkind, h⟩ := Result.bind_eq_ok.mp h
  obtain ⟨⟨name, r₁⟩, hname, h⟩ := Result.bind_eq_ok.mp h
  obtain ⟨⟨description, r₂⟩, hdescription, h⟩ := Result.bind_eq_ok.mp h
  obtain ⟨⟨plugin, r₃⟩, hplugin, h⟩ := Result.bind_eq_ok.mp h
  obtain ⟨timeout, htimeout, h⟩ := Result.bind_eq_ok.mp h
  obtain ⟨steps, hsteps, h⟩ := Result.bind_eq_ok.mp h
  cases h
  have hkind' : kindOf (es.map f) = .ok kind := by
    rwa [kindOf, Datum.lookup_map hf (hown "kind" (by decide))]
  have hname' : takeText "name" (es.map f) = .ok (name, r₁.map f) := by
    rw [takeText_map hf (hown "name" (by decide)), hname]
    rfl
  have hdescription' : takeText "description" (r₁.map f) = .ok (description, r₂.map f) := by
    rw [takeText_map hf (hown "description" (by decide)), hdescription]
    rfl
  have hplugin' : takeText "plugin" (r₂.map f) = .ok (plugin, r₃.map f) := by
    rw [takeText_map hf (hown "plugin" (by decide)), hplugin]
    rfl
  have htimeout' : timeoutOf (r₃.map f) = .ok timeout := by
    rwa [timeoutOf, Datum.lookup_map hf (hown "timeout_ms" (by decide))]
  have hsteps' : stepsOf (ownKeys.foldl (fun es key => (Datum.remove key es).2) (r₃.map f))
      = .ok steps := by
    rw [foldl_remove_map hf ownKeys r₃ hown]
    obtain rfl := takeText_ok hname
    obtain rfl := takeText_ok hdescription
    obtain rfl := takeText_ok hplugin
    obtain ⟨capability, items, hread, hne, hlist⟩ := stepsOf_eq_ok.mp hsteps
    obtain ⟨items', hread', hlist'⟩ := hbody capability items hread hlist
    refine stepsOf_eq_ok.mpr ⟨capability, items', hread', fun hnil => hne ?_, hlist'⟩
    have hlength := (Step.ofList_ok hlist).1.symm.trans (Step.ofList_ok hlist').1
    rwa [hnil, List.length_nil, List.length_eq_zero_iff] at hlength
  refine Result.bind_eq_ok.mpr ⟨kind, hkind', ?_⟩
  refine Result.bind_eq_ok.mpr ⟨_, hname', ?_⟩
  refine Result.bind_eq_ok.mpr ⟨_, hdescription', ?_⟩
  refine Result.bind_eq_ok.mpr ⟨_, hplugin', ?_⟩
  refine Result.bind_eq_ok.mpr ⟨timeout, htimeout', ?_⟩
  exact Result.bind_eq_ok.mpr ⟨steps, hsteps', rfl⟩

end

/-- An overlooked entry makes no difference to a document. -/
theorem ofDatum_overlooks {d : Datum} {s : Script} (h : ofDatum d = .ok s) {way : List Turn}
    {keys : KeySet} (hkeys : FixedKeys d way keys) {x : Datum} (hway : d.Leads way x)
    {es : List (Datum × Datum)} (hx : x.untag = .map es) {k v : Datum}
    (hforeign : ¬ keys.Defines k) (hover : keys.Overlooks k v) (i : Nat) :
    ofDatum (d.edit (.withEntry i k v) way) = .ok s := by
  cases hkeys with
  | document => exact hover.elim
  | @inStep j fs kind way keys hstep hkind hkeys =>
      -- Nothing is overlooked but in an owner.
      obtain ⟨name, hname, rfl, rfl, rfl⟩ : ∃ name, (name = "owner" ∨ name = "group")
          ∧ keys = .owner ∧ kind = "file-state" ∧ way = [.key "expect", .key name] := by
        cases hkeys with
        | user => exact ⟨_, .inl rfl, rfl, rfl, rfl⟩
        | group => exact ⟨_, .inr rfl, rfl, rfl, rfl⟩
        | step _ | parcel | sequence | parcelGroup | state => exact hover.elim
      obtain ⟨v₀, items, hv, hitems, hj, hrest⟩ := step_of_leads h hstep hway
      obtain ⟨es₀, -, -, rfl, -⟩ := ofDatum_ok h
      -- What every script has stands beside the steps, so it stays as it was.
      have hown : ∀ key ∈ ownKeys, ∀ e : Datum × Datum, e.1 = .text key →
          Datum.changeEntry "steps" (Datum.edit (.withEntry i k v)
            [.item j, .key "expect", .key name]) e = e := by
        intro key hkey e he
        refine Datum.changeEntry_of_ne fun heq => ?_
        obtain rfl : key = "steps" := by
          rw [he] at heq
          exact Option.some.inj heq
        exact absurd hkey (by decide)
      refine ofDatum_map Datum.changeEntry_key hown h fun capability items' hread hlist => ?_
      obtain rfl := (bodyReader_ok hread).2 v₀ items (holds_remainder hv) hitems
      refine ⟨_, bodyReader_change rfl rfl (holds_remainder hv) hitems
        (Datum.untag_edit_item hitems) hread, ?_⟩
      refine Step.ofList_modify hj (fun index step hstep => ?_) hlist
      exact Step.ofDatum_overlooks hover hforeign hname (Datum.mem_of_lookup hkind) hrest hx hstep

/-- **Unknown keys.** If one entry comes to a mapping of a script, under a
key that the format does not define there, the script is refused; except
for an entry of an owner that nobody looks at, which changes nothing. -/
theorem ofText_withEntry {text text' : String} {d : Datum} {s : Script}
    (h : ofText text = .ok s) (hd : Yaml.parse? text = some d) {way : List Turn} {keys : KeySet}
    (hkeys : FixedKeys d way keys) {x : Datum} (hway : d.Leads way x)
    {es : List (Datum × Datum)} (hx : x.untag = .map es) {k v : Datum}
    (hforeign : ¬ keys.Defines k) {i : Nat}
    (hd' : Yaml.parse? text' = some (d.edit (.withEntry i k v) way)) :
    (¬ keys.Overlooks k v → ∃ fault, ofText text' = .error fault)
      ∧ (keys.Overlooks k v → ofText text' = .ok s) := by
  rw [ofText, hd] at h
  rw [ofText, hd']
  constructor
  · intro hlooks
    cases h' : ofDatum (d.edit (.withEntry i k v) way) with
    | error fault => exact ⟨fault, h'⟩
    | ok s' => exact absurd (overlooks_of_ofDatum h hkeys hway hx hforeign h') hlooks
  · intro hover
    exact ofDatum_overlooks h hkeys hway hx hforeign hover i

end Script

/-! ## A misspelled name -/

namespace MisspelledName

def text : String :=
  "\x7bkind: file, steps: [\x7bkind: file-state, path: f, expect: \x7bowner: \x7bid: 0\x7d\x7d\x7d]\x7d"

/-- The owner has a name as well, but for two letters. -/
def inOwner : String :=
  "\x7bkind: file, steps: [\x7bkind: file-state, path: f, "
    ++ "expect: \x7bowner: \x7bid: 0, nmae: root\x7d\x7d\x7d]\x7d"

/-- The same entry, one mapping further out. -/
def inExpect : String :=
  "\x7bkind: file, steps: [\x7bkind: file-state, path: f, "
    ++ "expect: \x7bowner: \x7bid: 0\x7d, nmae: root\x7d\x7d]\x7d"

def owner : Datum := .map [(.text "id", .number (.int 0))]

def expected : Datum := .map [(.text "owner", owner)]

def step : List (Datum × Datum) :=
  [(.text "kind", .text "file-state"), (.text "path", .text "f"), (.text "expect", expected)]

def document : Datum := .map [(.text "kind", .text "file"), (.text "steps", .list [.map step])]

/-- The way to the step. -/
def way : List Turn := [.key "steps", .item 0]

theorem parsed : Yaml.parse? text = some document := by
  decide +kernel

theorem inOwner_parsed : Yaml.parse? inOwner = some (document.edit
    (.withEntry 1 (.text "nmae") (.text "root")) (way ++ [.key "expect", .key "owner"])) := by
  decide +kernel

theorem inExpect_parsed : Yaml.parse? inExpect = some (document.edit
    (.withEntry 1 (.text "nmae") (.text "root")) (way ++ [.key "expect"])) := by
  decide +kernel

theorem readable : (Script.ofText text).isOk = true := by
  rw [Script.ofText, parsed]
  decide +kernel

theorem inOwner_readable : (Script.ofText inOwner).isOk = true := by
  rw [Script.ofText, inOwner_parsed]
  decide +kernel

theorem holds_steps : document.Holds "steps" (.list [.map step]) :=
  ⟨_, rfl, .text "steps", by simp, rfl⟩

theorem holds_expect : (Datum.map step).Holds "expect" expected :=
  ⟨step, rfl, .text "expect", by simp [step], rfl⟩

theorem holds_owner : expected.Holds "owner" owner :=
  ⟨_, rfl, .text "owner", List.mem_singleton_self _, rfl⟩

theorem leads {rest : List Turn} {x : Datum} (h : (Datum.map step).Leads rest x) :
    document.Leads (way ++ rest) x :=
  .key holds_steps (.item rfl rfl h)

theorem leads_expect : document.Leads (way ++ [.key "expect"]) expected :=
  leads (.key holds_expect .here)

theorem leads_owner : document.Leads (way ++ [.key "expect", .key "owner"]) owner :=
  leads (.key holds_expect (.key holds_owner .here))

theorem fixedKeys {rest : List Turn} {keys : KeySet}
    (h : Step.FixedKeys "file-state" rest keys) :
    Script.FixedKeys document (way ++ rest) keys :=
  .inStep (leads .here) (by decide) h

theorem not_defined : ¬ KeySet.owner.Defines (.text "nmae") := by
  simp [KeySet.Defines, IdentityLiteral.key?]

end MisspelledName

/-- A misspelled name is refused in one place and overlooked in another. -/
theorem Script.ofText_withEntry_misspelledName :
    ∃ s, ofText MisspelledName.text = .ok s
      ∧ ofText MisspelledName.inOwner = .ok s
      ∧ ∃ fault, ofText MisspelledName.inExpect = .error fault := by
  have hok := MisspelledName.readable
  obtain ⟨s, hs⟩ : ∃ s, ofText MisspelledName.text = .ok s := by
    cases h : ofText MisspelledName.text with
    | ok s => exact ⟨s, rfl⟩
    | error fault =>
        rw [h] at hok
        cases hok
  have howner := Script.ofText_withEntry hs MisspelledName.parsed
    (MisspelledName.fixedKeys .user) MisspelledName.leads_owner rfl
    MisspelledName.not_defined MisspelledName.inOwner_parsed
  have hexpect := Script.ofText_withEntry hs MisspelledName.parsed
    (MisspelledName.fixedKeys .state) MisspelledName.leads_expect rfl
    (by simp [KeySet.Defines, Datum.fieldName?, Datum.untag]) MisspelledName.inExpect_parsed
  exact ⟨s, hs, howner.2 ⟨rfl, rfl⟩, hexpect.1 id⟩

/-- A key that the format does not define comes to the mapping of an
owner, and the script can still be read. -/
theorem Script.ofText_unknown_key :
    Yaml.parse? MisspelledName.text = some MisspelledName.document
      ∧ (ofText MisspelledName.text).isOk = true
      ∧ FixedKeys MisspelledName.document
          (MisspelledName.way ++ [.key "expect", .key "owner"]) .owner
      ∧ MisspelledName.document.Leads (MisspelledName.way ++ [.key "expect", .key "owner"])
          MisspelledName.owner
      ∧ ¬ KeySet.owner.Defines (.text "nmae")
      ∧ Yaml.parse? MisspelledName.inOwner = some (MisspelledName.document.edit
          (.withEntry 1 (.text "nmae") (.text "root"))
          (MisspelledName.way ++ [.key "expect", .key "owner"]))
      ∧ (ofText MisspelledName.inOwner).isOk = true := by
  exact ⟨MisspelledName.parsed, MisspelledName.readable, MisspelledName.fixedKeys .user,
    MisspelledName.leads_owner, MisspelledName.not_defined, MisspelledName.inOwner_parsed,
    MisspelledName.inOwner_readable⟩

end Conformance
