import Conformance.Proofs.Datum.Equality
import Conformance.Proofs.Script.WellFormed
import Conformance.Proofs.Yaml.Mappings

/-!
# Scripts step by step

The top level of a document says what sort of plugin a script is for and
lists its steps (`Script.Outline`). Whether there is a script is then up to
the steps alone, and to each of them alone: a list of well-formed steps is
read in full, in the order of the document, and otherwise the first step
that is ill-formed is to blame (`Script.ofText_steps`). Nothing else ever
blames a step.
-/

namespace Conformance

namespace Script

variable {es : List (Datum × Datum)} {capability : String} {items : List Datum}

/-! ## The top level -/

/-- The entry under a key is a text or null, if there is one. -/
def HasText (key : String) (es : List (Datum × Datum)) : Prop :=
  ∀ v, Datum.lookup key es = some v → v = .null ∨ ∃ s, v = .text s

/-- The script waits for a natural number of 64 bits, if it says how
long. -/
def HasTimeout (es : List (Datum × Datum)) : Prop :=
  ∀ v, Datum.lookup "timeout_ms" es = some v →
    ∃ n : Nat, n < 0x10000000000000000 ∧ v.untag = .number (.int n)

/-- What is wanted of the entries that every script may have. -/
structure Heading (es : List (Datum × Datum)) : Prop where
  kind : Datum.lookup "kind" es = some (.text "file")
  name : HasText "name" es
  description : HasText "description" es
  plugin : HasText "plugin" es
  timeout : HasTimeout es

/-- The keys of the body of a script. -/
def bodyKeys : List String := ["capability", "steps"]

/-- The body of a script lists some items. The capability is the one that
it says, or the one that is implied if it says none. -/
structure Lists (es : List (Datum × Datum)) (capability : String) (items : List Datum) : Prop where
  said : ∀ v, (Datum.map es).Holds "capability" v → v.untag = .text capability
  implied : (∀ v, ¬ (Datum.map es).Holds "capability" v) → capability = defaultCapability
  listed : ∃ v, (Datum.map es).Holds "steps" v
  items : ∀ v, (Datum.map es).Holds "steps" v → v.untag = .list items

/-- A document whose top level is well-formed and lists some items. -/
structure Outline (es : List (Datum × Datum)) (capability : String) (items : List Datum) :
    Prop where
  heading : Heading es
  known : ∀ e ∈ es, (∃ key ∈ ownKeys, e.1 = .text key)
    ∨ ∃ name ∈ bodyKeys, e.1.fieldName? = some name
  once : (es.map (·.1.fieldName?)).Nodup
  lists : Lists es capability items

/-- A document is refused, and no step is to blame. -/
def Blameless {α : Type} (x : Except ScriptFault α) : Prop :=
  ∃ fault, x = .error fault ∧ ∀ step why, fault ≠ .malformed step why

theorem Blameless.bind {α β : Type} {x : Except ScriptFault α} (h : Blameless x)
    (f : α → Except ScriptFault β) : Blameless (x >>= f) := by
  obtain ⟨fault, rfl, hblame⟩ := h
  exact ⟨fault, rfl, hblame⟩

theorem blameless_invalid {α : Type} (fault : DocumentFault) :
    Blameless (.error (.invalid fault) : Except ScriptFault α) :=
  ⟨_, rfl, by simp⟩

theorem kindOf_cases (es : List (Datum × Datum)) :
    Datum.lookup "kind" es = some (.text "file") ∧ kindOf es = .ok .file
      ∨ Datum.lookup "kind" es ≠ some (.text "file") ∧ Blameless (kindOf es) := by
  unfold kindOf PluginKind.ofName?
  cases Datum.lookup "kind" es with
  | none => exact .inr ⟨by simp, _, rfl, by simp⟩
  | some v =>
      cases v with
      | text name =>
          by_cases hname : name = "file"
          · left
            simp [hname]
          · right
            simp [hname, Blameless]
      | null | bool _ | number _ | list _ | map _ | tagged _ _ =>
          exact .inr ⟨by simp, blameless_invalid _⟩

theorem takeText_cases (key : String) (es : List (Datum × Datum)) :
    HasText key es ∧ (∃ s, takeText key es = .ok (s, (Datum.remove key es).2))
      ∨ ¬ HasText key es ∧ Blameless (takeText key es) := by
  unfold HasText takeText
  rw [← Datum.fst_remove]
  obtain ⟨_ | v, rest⟩ := Datum.remove key es
  · simp
  · cases v <;> simp [blameless_invalid]

theorem timeoutOf_cases (es : List (Datum × Datum)) :
    HasTimeout es ∧ (∃ timeout, timeoutOf es = .ok timeout)
      ∨ ¬ HasTimeout es ∧ Blameless (timeoutOf es) := by
  unfold HasTimeout timeoutOf
  cases Datum.lookup "timeout_ms" es with
  | none => exact .inl ⟨by simp, none, rfl⟩
  | some v =>
      simp only [Option.some.injEq, forall_eq', ← Reader.exists_word64_iff]
      cases Reader.word64 v with
      | ok n => exact .inl ⟨⟨n, rfl⟩, some n, rfl⟩
      | error fault => exact .inr ⟨by simp, blameless_invalid _⟩

section

variable {key : String} (h : Datum.Distinct es)
include h

theorem hasText_remove {key' : String} (hne : key' ≠ key) :
    HasText key' (Datum.remove key es).2 ↔ HasText key' es := by
  rw [HasText, HasText, h.lookup_remove hne]

theorem hasTimeout_remove (hne : "timeout_ms" ≠ key) :
    HasTimeout (Datum.remove key es).2 ↔ HasTimeout es := by
  rw [HasTimeout, HasTimeout, h.lookup_remove hne]

/-- With the heading of a script it is up to its body whether a document
can be read. Without one it cannot, and no step is to blame. -/
theorem ofDatum_map_cases :
    Heading es ∧ (∃ make : List Step → Script, (∀ steps, (make steps).steps = steps)
        ∧ ofDatum (.map es) = (stepsOf (remainder es)).map make)
      ∨ ¬ Heading es ∧ Blameless (ofDatum (.map es)) := by
  have h₁ := Datum.distinct_remove h "name"
  have h₂ := Datum.distinct_remove h₁ "description"
  -- What is taken out before leaves the other keys as they were.
  have hdescription : HasText "description" (Datum.remove "name" es).2 ↔ HasText "description" es :=
    hasText_remove h (by decide)
  have hplugin := (hasText_remove h₁ (show "plugin" ≠ "description" by decide)).trans
    (hasText_remove h (by decide))
  have htimeout := ((hasTimeout_remove h₂ (show "timeout_ms" ≠ "plugin" by decide)).trans
    (hasTimeout_remove h₁ (by decide))).trans (hasTimeout_remove h (by decide))
  rw [ofDatum]
  rcases kindOf_cases es with ⟨hkind, heq⟩ | ⟨hkind, hblame⟩
  case inr => exact .inr ⟨fun hh => hkind hh.kind, hblame.bind _⟩
  rw [heq, Result.ok_bind]
  rcases takeText_cases "name" es with ⟨hname, name, heq⟩ | ⟨hname, hblame⟩
  case inr => exact .inr ⟨fun hh => hname hh.name, hblame.bind _⟩
  rw [heq, Result.ok_bind]
  dsimp only
  rcases takeText_cases "description" (Datum.remove "name" es).2 with
    ⟨htext, description, heq⟩ | ⟨htext, hblame⟩
  case inr => exact .inr ⟨fun hh => htext (hdescription.mpr hh.description), hblame.bind _⟩
  have hdescription := hdescription.mp htext
  rw [heq, Result.ok_bind]
  dsimp only
  rcases takeText_cases "plugin" (Datum.remove "description" (Datum.remove "name" es).2).2 with
    ⟨htext, plugin, heq⟩ | ⟨htext, hblame⟩
  case inr => exact .inr ⟨fun hh => htext (hplugin.mpr hh.plugin), hblame.bind _⟩
  have hplugin := hplugin.mp htext
  rw [heq, Result.ok_bind]
  dsimp only
  rcases timeoutOf_cases (Datum.remove "plugin"
    (Datum.remove "description" (Datum.remove "name" es).2).2).2 with
      ⟨hword, timeout, heq⟩ | ⟨hword, hblame⟩
  case inr => exact .inr ⟨fun hh => hword (htimeout.mpr hh.timeout), hblame.bind _⟩
  refine .inl ⟨⟨hkind, hname, hdescription, hplugin, htimeout.mp hword⟩, ?_⟩
  rw [heq, Result.ok_bind]
  refine ⟨_, ?_, Result.bind_pure_comp⟩
  exact fun _ => rfl

end

/-! ## The body -/

/-- What is wanted of the entries besides those that every script may
have. -/
structure Body (es : List (Datum × Datum)) (capability : String) (items : List Datum) : Prop where
  known : ∀ e ∈ es, ∃ name ∈ bodyKeys, e.1.fieldName? = some name
  once : (es.map (·.1.fieldName?)).Nodup
  lists : Lists es capability items

theorem known_of_takes {e : Datum × Datum} (h : Reader.Takes fields e) :
    ∃ name ∈ bodyKeys, e.1.fieldName? = some name := by
  obtain ⟨name, f, hk, hfind, -⟩ := h
  have hname : f.name = name := by simpa using List.find?_some hfind
  exact ⟨name, hname ▸ List.mem_map_of_mem (List.mem_of_find?_eq_some hfind), hk⟩

theorem Body.takes (h : Body es capability items) {e : Datum × Datum} (he : e ∈ es) :
    Reader.Takes fields e := by
  obtain ⟨name, hname, hk⟩ := h.known e he
  have hholds : (Datum.map es).Holds name e.2 := ⟨es, rfl, e.1, he, hk⟩
  simp only [bodyKeys, List.mem_cons, List.not_mem_nil, or_false] at hname
  rcases hname with rfl | rfl
  · exact ⟨_, _, hk, rfl, Reader.accepts_of (Reader.text_eq_ok.mpr (h.lists.said _ hholds)) _⟩
  · exact ⟨_, _, hk, rfl, Reader.accepts_of (list_self (h.lists.items _ hholds)) _⟩

theorem body_of_bodyReader (h : bodyReader (.map es) = .ok (capability, items))
    (hne : items ≠ []) : Body es capability items := by
  obtain ⟨v, hv, hitems⟩ := holds_of_bodyReader h hne
  obtain ⟨r, hr, h⟩ := Result.bind_eq_ok.mp h
  obtain ⟨cap, hcap, h⟩ := Result.bind_eq_ok.mp h
  obtain ⟨steps, -, h⟩ := Result.bind_eq_ok.mp h
  cases h
  have hadmits := Reader.entries_admits hr
  obtain ⟨values, hscan, -⟩ := Result.map_eq_ok.mp hr
  obtain ⟨htakes, honce⟩ := Reader.exists_scan_iff.mp ⟨values, hscan⟩
  refine ⟨fun e he => known_of_takes (htakes e he).1, honce, fun w hw => ?_,
    fun hnone => ?_, ⟨v, hv⟩, fun w hw => ?_⟩
  · rw [Reader.default_of_holds hr hw] at hcap
    exact Reader.text_eq_ok.mp hcap
  · rw [Reader.Entries.default] at hcap
    split at hcap
    · rename_i w hw
      exact absurd (Reader.holds_of_lookup hr (Reader.listed_eq_none rfl hr) hw) (hnone w)
    · exact (Except.ok.inj hcap).symm
  · rw [hadmits.unique hw hv, hitems]

theorem Body.bodyReader (h : Body es capability items) :
    bodyReader (.map es) = .ok (capability, items) := by
  obtain ⟨values, hscan⟩ : ∃ values, Reader.scan true fields [] es = .ok values :=
    Reader.exists_scan_iff.mpr ⟨fun e he => ⟨h.takes he, by simp⟩, h.once⟩
  have hr : Reader.entries .script "a script" true fields (.map es)
      = .ok ⟨values, none, "a script"⟩ :=
    Result.map_eq_ok.mpr ⟨values, hscan, rfl⟩
  refine Result.bind_eq_ok.mpr ⟨_, hr, Result.bind_eq_ok.mpr ⟨capability, ?_, ?_⟩⟩
  · by_cases hsaid : ∃ v, (Datum.map es).Holds "capability" v
    · obtain ⟨v, hv⟩ := hsaid
      rw [Reader.default_of_holds hr hv]
      exact Reader.text_eq_ok.mpr (h.lists.said v hv)
    · have hnone : ∀ v, ¬ (Datum.map es).Holds "capability" v := not_exists.mp hsaid
      rw [Reader.Entries.default]
      split
      · rename_i v hv
        exact absurd (Reader.holds_of_lookup hr rfl hv) (hnone v)
      · rw [h.lists.implied hnone]
  · obtain ⟨v, hv⟩ := h.lists.listed
    refine Result.bind_eq_ok.mpr ⟨items, ?_, rfl⟩
    rw [Reader.default_of_holds hr hv]
    exact list_self (h.lists.items v hv)

/-! ## The whole document -/

theorem key_of_mem_foldl_remove {e : Datum × Datum} : ∀ {keys : List String}
    {es : List (Datum × Datum)}, Datum.Distinct es →
      e ∈ keys.foldl (fun es key => (Datum.remove key es).2) es → ∀ key ∈ keys, e.1 ≠ .text key
  | [], _, _, _ => by simp
  | key :: keys, es, h, he => by
      refine List.forall_mem_cons.mpr ⟨?_, key_of_mem_foldl_remove (Datum.distinct_remove h key) he⟩
      exact (h.mem_remove_iff.mp (mem_of_mem_foldl_remove he)).2

/-- The fields of the body go by other names than what every script may
have. -/
theorem fieldName?_ne_own {k : Datum}
    (h : ∃ name ∈ bodyKeys, k.fieldName? = some name) :
    ∀ key ∈ ownKeys, k.fieldName? ≠ some key := by
  obtain ⟨name, hname, hk⟩ := h
  have hapart : ∀ name ∈ bodyKeys, name ∉ ownKeys := by decide
  intro key hkey heq
  obtain rfl := Option.some.inj (hk.symm.trans heq)
  exact hapart _ hname hkey

/-- What every script may have comes once, so whether the rest does
counts. -/
theorem once_iff (h : Datum.Distinct es)
    (hknown : ∀ e ∈ remainder es, ∃ name ∈ bodyKeys, e.1.fieldName? = some name) :
    (es.map (·.1.fieldName?)).Nodup ↔ ((remainder es).map (·.1.fieldName?)).Nodup := by
  obtain ⟨taken, hperm, htaken⟩ :=
    perm_foldl_remove (["name", "description", "plugin"] ++ ownKeys) es
  have hown : ∀ e ∈ taken, ∃ key ∈ ownKeys, e.1 = .text key := by
    intro e he
    obtain ⟨key, hkey, hk⟩ := htaken e he
    have hall : ["name", "description", "plugin"] ++ ownKeys ⊆ ownKeys := by decide
    exact ⟨key, hall hkey, hk⟩
  have honce : (taken.map (·.1.fieldName?)).Nodup := by
    refine List.pairwise_map.mpr
      ((List.pairwise_append.mp (h.of_perm hperm)).1.imp_of_mem fun {a b} ha hb hab heq => ?_)
    obtain ⟨key, -, hka⟩ := hown a ha
    obtain ⟨key', -, hkb⟩ := hown b hb
    rw [hka, hkb] at heq
    obtain rfl : key = key' := Option.some.inj heq
    exact hab key hka hkb
  rw [(hperm.map _).nodup_iff, List.map_append, List.nodup_append]
  refine ⟨fun hall => hall.2.1, fun hrest => ⟨honce, hrest, ?_⟩⟩
  simp only [List.mem_map]
  rintro _ ⟨e, he, rfl⟩ _ ⟨e', he', rfl⟩ heq
  obtain ⟨key, hkey, hk⟩ := hown e he
  rw [hk] at heq
  exact fieldName?_ne_own (hknown e' he') key hkey heq.symm

theorem lists_remainder :
    Lists (remainder es) capability items ↔ Lists es capability items := by
  have hcapability : ∀ v, (Datum.map (remainder es)).Holds "capability" v
      ↔ (Datum.map es).Holds "capability" v := fun v => holds_remainder_iff (by decide)
  have hsteps : ∀ v, (Datum.map (remainder es)).Holds "steps" v ↔ (Datum.map es).Holds "steps" v :=
    fun v => holds_remainder_iff (by decide)
  constructor
  · rintro ⟨hsaid, himplied, hlisted, hitems⟩
    simp only [hcapability, hsteps] at hsaid himplied hlisted hitems
    exact ⟨hsaid, himplied, hlisted, hitems⟩
  · rintro ⟨hsaid, himplied, hlisted, hitems⟩
    simp only [← hcapability, ← hsteps] at hsaid himplied hlisted hitems
    exact ⟨hsaid, himplied, hlisted, hitems⟩

theorem outline_iff (h : Datum.Distinct es) :
    Outline es capability items ↔ Heading es ∧ Body (remainder es) capability items := by
  constructor
  · rintro ⟨hheading, hknown, honce, hlists⟩
    have hbody : ∀ e ∈ remainder es, ∃ name ∈ bodyKeys, e.1.fieldName? = some name := by
      intro e he
      refine (hknown e (mem_of_mem_foldl_remove he)).resolve_left ?_
      rintro ⟨key, hkey, hk⟩
      exact key_of_mem_foldl_remove h he key (List.mem_append_right _ hkey) hk
    exact ⟨hheading, hbody, (once_iff h hbody).mp honce, lists_remainder.mpr hlists⟩
  · rintro ⟨hheading, hknown, honce, hlists⟩
    refine ⟨hheading, fun e he => ?_, (once_iff h hknown).mpr honce, lists_remainder.mp hlists⟩
    by_cases hown : ∃ key ∈ ownKeys, e.1 = .text key
    · exact .inl hown
    · exact .inr (hknown e (mem_remainder he fun key hkey hk => hown ⟨key, hkey, hk⟩))

/-- The steps of a script are those of the items, one of each in the order
of the items, and either phase takes its own of them in that order. -/
structure Follows (capability : String) (items : List Datum) (s : Script) : Prop where
  length : s.steps.length = items.length
  item : ∀ i x, items[i]? = some x → ∃ step, s.steps[i]? = some step
    ∧ Step.ofDatum capability i x = .ok step ∧ step.index = i ∧ step.name = Step.called i x
  before : (s.stepsIn .before).Sublist s.steps
  after : (s.stepsIn .after).Sublist s.steps
  parted : (s.stepsIn .before ++ s.stepsIn .after).Perm s.steps

theorem parted (s : Script) : (s.stepsIn .before ++ s.stepsIn .after).Perm s.steps := by
  have hphase : s.stepsIn .after
      = s.steps.filter fun step => !decide (step.directive.phase = .before) := by
    refine List.filter_congr fun step _ => ?_
    cases step.directive <;> rfl
  rw [hphase]
  exact List.filter_append_perm _ _

theorem follows_of_ofList {s : Script} (h : Step.ofList capability 0 items = .ok s.steps) :
    s.Follows capability items := by
  obtain ⟨hlength, hitems⟩ := Step.ofList_ok h
  refine ⟨hlength, fun i x hx => ?_, List.filter_sublist, List.filter_sublist, s.parted⟩
  obtain ⟨step, hstep, hread⟩ := hitems i x hx
  rw [Nat.zero_add] at hread
  obtain ⟨hname, hindex⟩ := Step.called_of_ofDatum hread
  exact ⟨step, hstep, hread, hindex, hname⟩

theorem stepsOf_of_bodyReader (h : bodyReader (.map es) = .ok (capability, items))
    (hne : items ≠ []) :
    (∃ steps, Step.ofList capability 0 items = .ok steps ∧ stepsOf es = .ok steps)
      ∨ ∃ step why, Step.ofList capability 0 items = .error (step, why)
        ∧ stepsOf es = .error (.malformed step why) := by
  obtain ⟨x, r, rfl⟩ := List.exists_cons_of_ne_nil hne
  unfold stepsOf
  rw [h]
  cases hlist : Step.ofList capability 0 (x :: r) with
  | ok steps => exact .inl ⟨steps, rfl, by simp only [hlist]⟩
  | error fault => exact .inr ⟨fault.1, fault.2, rfl, by simp only [hlist]⟩

theorem stepsOf_cases (es : List (Datum × Datum)) :
    (∃ capability items, bodyReader (.map es) = .ok (capability, items) ∧ items ≠ [])
      ∨ Blameless (stepsOf es) := by
  unfold stepsOf
  split
  · exact .inr (blameless_invalid _)
  · exact .inr (blameless_invalid _)
  · rename_i capability items hnil hread
    exact .inl ⟨capability, items, hread, fun h => hnil (h ▸ rfl)⟩

/-- A document without an outline is refused, and no step is to blame. -/
theorem ofText_cases (text : String) :
    (∃ es capability items, Yaml.parse? text = some (.map es) ∧ Outline es capability items
        ∧ items ≠ [])
      ∨ Blameless (ofText text) := by
  unfold ofText
  cases hparse : Yaml.parse? text with
  | none => exact .inr ⟨_, rfl, by simp⟩
  | some d =>
      cases d with
      | map es =>
          have hdistinct := Yaml.distinct_of_parse? hparse
          rcases ofDatum_map_cases hdistinct with ⟨hheading, make, -, heq⟩ | ⟨-, hblame⟩
          · rcases stepsOf_cases (remainder es) with ⟨capability, items, hbody, hne⟩ | hblame
            · exact .inl ⟨es, capability, items, rfl, (outline_iff hdistinct).mpr
                ⟨hheading, body_of_bodyReader hbody hne⟩, hne⟩
            · right
              obtain ⟨fault, hfault, hblame⟩ := hblame
              exact ⟨fault, by simp only [heq, hfault, Except.map], hblame⟩
          · exact .inr hblame
      | null | bool _ | number _ | text _ | list _ | tagged _ _ =>
          exact .inr (blameless_invalid _)

/-- With an outline it is up to the items. -/
theorem ofText_of_outline {text : String} (hparse : Yaml.parse? text = some (.map es))
    (h : Outline es capability items) (hne : items ≠ []) :
    (∃ s, ofText text = .ok s ∧ Step.ofList capability 0 items = .ok s.steps)
      ∨ ∃ step why, Step.ofList capability 0 items = .error (step, why)
        ∧ ofText text = .error (.malformed step why) := by
  have hdistinct := Yaml.distinct_of_parse? hparse
  obtain ⟨hheading, hbody⟩ := (outline_iff hdistinct).mp h
  obtain ⟨make, hmake, heq⟩ : ∃ make : List Step → Script, (∀ steps, (make steps).steps = steps)
      ∧ ofDatum (.map es) = (stepsOf (remainder es)).map make := by
    rcases ofDatum_map_cases hdistinct with ⟨-, hmake⟩ | ⟨hno, -⟩
    · exact hmake
    · exact absurd hheading hno
  rw [ofText, hparse]
  dsimp only
  rw [heq]
  rcases stepsOf_of_bodyReader hbody.bodyReader hne with
    ⟨steps, hlist, hsteps⟩ | ⟨step, why, hlist, hsteps⟩
  · exact .inl ⟨make steps, by rw [hsteps]; rfl, by rw [hmake, hlist]⟩
  · exact .inr ⟨step, why, hlist, by rw [hsteps]; rfl⟩

/-- **Steps.** A document with an outline is read or blames a step, and no
other does either. It is read just if every item is a well-formed step on
its own, and then the steps follow the items; otherwise the first item that
is ill-formed is to blame, by what it goes by. -/
theorem ofText_steps (text : String) :
    ((∃ s, ofText text = .ok s) ∨ (∃ step why, ofText text = .error (.malformed step why))
        ↔ ∃ es capability items, Yaml.parse? text = some (.map es)
          ∧ Outline es capability items ∧ items ≠ [])
      ∧ ∀ es capability items, Yaml.parse? text = some (.map es) →
        Outline es capability items → items ≠ [] →
          ((∃ s, ofText text = .ok s) ↔ ∀ x ∈ items, Step.WellFormed capability x)
          ∧ (∀ s, ofText text = .ok s → s.Follows capability items)
          ∧ ((¬ ∀ x ∈ items, Step.WellFormed capability x) →
            ∃ i x why, items[i]? = some x ∧ ¬ Step.WellFormed capability x
              ∧ (∀ j < i, ∀ y, items[j]? = some y → Step.WellFormed capability y)
              ∧ ofText text = .error (.malformed (Step.called i x) why)) := by
  constructor
  · constructor
    · intro h
      refine (ofText_cases text).resolve_right ?_
      rintro ⟨fault, hfault, hblame⟩
      rcases h with ⟨s, hs⟩ | ⟨step, why, herror⟩
      · cases hs.symm.trans hfault
      · cases hfault.symm.trans herror
        exact hblame step why rfl
    · rintro ⟨es, capability, items, hparse, h, hne⟩
      rcases ofText_of_outline hparse h hne with ⟨s, hs, -⟩ | ⟨step, why, -, herror⟩
      · exact .inl ⟨s, hs⟩
      · exact .inr ⟨step, why, herror⟩
  · intro es capability items hparse h hne
    rw [← Step.exists_ofList_iff]
    rcases ofText_of_outline hparse h hne with ⟨s, hs, hlist⟩ | ⟨step, why, hlist, herror⟩
    · refine ⟨iff_of_true ⟨s, hs⟩ ⟨_, hlist⟩, fun s' hs' => ?_, fun hno => absurd ⟨_, hlist⟩ hno⟩
      obtain rfl := Except.ok.inj (hs.symm.trans hs')
      exact follows_of_ofList hlist
    · refine ⟨iff_of_false ?_ ?_, fun s hs => ?_, fun _ => ?_⟩
      · rintro ⟨s, hs⟩
        cases hs.symm.trans herror
      · rintro ⟨steps, hsteps⟩
        cases hsteps.symm.trans hlist
      · cases hs.symm.trans herror
      · obtain ⟨i, x, hx, hill, rfl, hbefore⟩ := Step.ofList_eq_error hlist
        exact ⟨i, x, why, hx, hill, hbefore, herror⟩

end Script

/-! ## A stray step -/

namespace StrayStep

/-- The second step leads out of the workspace, and the third is no step at
all. -/
def text : String :=
  "\x7bkind: file, steps: [\x7bkind: exists, path: f, exists: true\x7d, "
    ++ "\x7bname: seed, kind: before, path: ../f, action: remove\x7d, 7]\x7d"

def present : Datum :=
  .map [(.text "kind", .text "exists"), (.text "path", .text "f"), (.text "exists", .bool true)]

def stray : Datum :=
  .map [(.text "name", .text "seed"), (.text "kind", .text "before"), (.text "path", .text "../f"),
    (.text "action", .text "remove")]

def items : List Datum := [present, stray, .number (.int 7)]

def entries : List (Datum × Datum) :=
  [(.text "kind", .text "file"), (.text "steps", .list items)]

theorem parsed : Yaml.parse? text = some (.map entries) := by
  decide +kernel

theorem outline : Script.Outline entries "file-monitor" items where
  heading := ⟨by decide +kernel, nofun, nofun, nofun, nofun⟩
  known := by simp [entries, Script.ownKeys, Script.bodyKeys, Datum.fieldName?, Datum.untag]
  once := by decide
  lists := {
    said := by simp [entries, Datum.holds_cons, Datum.holds_nil]
    implied := fun _ => rfl
    listed := ⟨.list items, by simp [entries, Datum.holds_cons]⟩
    items := by simp [entries, Datum.holds_cons, Datum.holds_nil, Datum.untag] }

theorem present_wellFormed : Step.WellFormed "file-monitor" present := by
  have hread : ∃ step, Step.ofDatum "file-monitor" 0 present = .ok step := ⟨_, rfl⟩
  exact Step.exists_ofDatum_iff.mp hread

theorem stray_illFormed : ¬ Step.WellFormed "file-monitor" stray := by
  intro h
  obtain ⟨step, hstep⟩ := Step.exists_ofDatum_iff.mpr h
  have herror : Step.ofDatum "file-monitor" 1 stray
      = .error ("seed", .escapes (Path.ofText "../f")) := by
    rfl
  cases hstep.symm.trans herror

end StrayStep

/-- Of two ill-formed steps the first one is to blame. -/
theorem Script.ofText_steps_strayStep :
    Yaml.parse? StrayStep.text = some (.map StrayStep.entries)
      ∧ Outline StrayStep.entries "file-monitor" StrayStep.items
      ∧ ∃ why, ofText StrayStep.text = .error (.malformed "seed" why) := by
  obtain ⟨-, hsteps⟩ := Script.ofText_steps StrayStep.text
  obtain ⟨-, -, hblame⟩ :=
    hsteps _ _ _ StrayStep.parsed StrayStep.outline (by simp [StrayStep.items])
  refine ⟨StrayStep.parsed, StrayStep.outline, ?_⟩
  obtain ⟨i, x, why, hx, hill, hbefore, herror⟩ := hblame fun hall =>
    StrayStep.stray_illFormed (hall _ (by simp [StrayStep.items]))
  match i, hx with
  | 0, hx =>
      obtain rfl := Option.some.inj hx
      exact absurd StrayStep.present_wellFormed hill
  | 1, hx =>
      obtain rfl := Option.some.inj hx
      exact ⟨why, herror⟩
  | i + 2, _ => exact absurd (hbefore 1 (by omega) _ rfl) StrayStep.stray_illFormed

end Conformance
