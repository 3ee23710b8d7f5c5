import Mathlib
import Conformance.Proofs.Config.Variables
import Conformance.Proofs.Datum.Records

/-!
# Layers of a configuration

A configuration has three layers. A number is that of its variable if the
variable is set, else that of the file if the file gives it, else the
standard one; the settings are those of the file. `Documented` says this of
the lower two layers, and `Layered` of the environment above them. The
first variable that is set to anything but a number is what loading fails
of.

Loading lays the environment over the file as `Layered` says, but of the
environment without the values that are no text (`overriddenBy_layered`).
So it does what it should, unless the first variable to complain about is
one of those (`load_layered_iff`).
-/

namespace Conformance.Config

section

variable {files : FileSystem} {path : Option Path} {env : Environment} {given c : Config}

/-! ## The file -/

/-- The document of a configuration: that of the file, or an empty one
where no file is given. -/
inductive Document (files : FileSystem) : Option Path → Datum → Prop
  | absent : Document files none (.map [])
  | file {path : Path} {text : String} {table : Toml.Entries}
    (hread : files.read path = .ok (Utf8.encode text)) (htable : Toml.parse? text = some table) :
    Document files (some path) (.map (Toml.entryDatums table))

/-- A field has the value that the document gives, or else its standard
value. -/
def FieldOf {α : Type} (d : Datum) (key : String) (reads : Datum → α → Prop)
    (standard value : α) : Prop :=
  (∃ v, d.Holds key v ∧ reads v value) ∨ (∀ v, ¬ d.Holds key v) ∧ value = standard

/-- A number of a document. -/
def IsNumber (v : Datum) (n : Nat) : Prop := n < 2 ^ 64 ∧ v.untag = .number (.int n)

/-- A configuration has what a document gives, and standard values for what
it does not give. -/
structure Documented (d : Datum) (c : Config) : Prop where
  waitTimeout : FieldOf d "wait_timeout_ms" IsNumber 5000 c.waitTimeout
  pollInterval : FieldOf d "poll_interval_ms" IsNumber 25 c.pollInterval
  captureCapacity : FieldOf d "capture_capacity" IsNumber 4096 c.captureCapacity
  settings : FieldOf d "settings" (fun v s => Settings.reader v = .ok s) [] c.settings

theorem reader_documented {l : List (Datum × Datum)} (h : reader (.map l) = .ok c) :
    Documented (.map l) c := by
  obtain ⟨es, hes, h⟩ := Result.bind_eq_ok.mp h
  obtain ⟨wait, hwait, h⟩ := Result.bind_eq_ok.mp h
  obtain ⟨poll, hpoll, h⟩ := Result.bind_eq_ok.mp h
  obtain ⟨capacity, hcapacity, h⟩ := Result.bind_eq_ok.mp h
  obtain ⟨settings, hsettings, h⟩ := Result.bind_eq_ok.mp h
  obtain rfl := Except.ok.inj h
  have hlisted := Reader.listed_of_map hes
  have hnumber {bound : Nat} {want : String} {v : Datum} {n : Nat}
      (hbound : bound = 2 ^ 64) (hv : Reader.nat bound want v = .ok n) : IsNumber v n := by
    subst hbound
    exact Reader.nat_eq_ok.mp hv
  exact {
    waitTimeout := ((Reader.default_eq_ok hes hlisted rfl).mp hwait).imp_left
      fun ⟨v, hv, hn⟩ => ⟨v, hv, hnumber rfl hn⟩
    pollInterval := ((Reader.default_eq_ok hes hlisted rfl).mp hpoll).imp_left
      fun ⟨v, hv, hn⟩ => ⟨v, hv, hnumber rfl hn⟩
    captureCapacity := ((Reader.default_eq_ok hes hlisted rfl).mp hcapacity).imp_left
      fun ⟨v, hv, hn⟩ => ⟨v, hv, hnumber rfl hn⟩
    settings := (Reader.default_eq_ok hes hlisted rfl).mp hsettings }

/-- The configuration below the environment: that of the file, or the
standard one where no file is given. -/
def below (files : FileSystem) : Option Path → Except ConfigFault Config
  | some path => ofFile files path
  | none => .ok standard

theorem load_eq (h : below files path = .ok given) (env : Environment) :
    load files path env = given.overriddenBy env := by
  cases path with
  | none =>
      obtain rfl := Except.ok.inj h
      rfl
  | some path =>
      have hfile : ofFile files path = .ok given := h
      rw [load]
      dsimp only
      rw [hfile]
      rfl

theorem ofText?_documented {text : String} (h : ofText? text = some c) :
    ∃ table, Toml.parse? text = some table ∧ Documented (.map (Toml.entryDatums table)) c := by
  obtain ⟨table, htable, h⟩ := Option.bind_eq_some_iff.mp h
  exact ⟨table, htable, reader_documented (Result.toOption_eq_some.mp h)⟩

theorem ofFile_eq_ok {path : Path} :
    ofFile files path = .ok c ↔ ∃ text, files.read path = .ok (Utf8.encode text)
      ∧ ofText? text = some c := by
  unfold ofFile
  constructor
  · intro h
    split at h
    · cases h
    · rename_i content hread
      split at h
      · cases h
      · rename_i text htext
        obtain rfl := Utf8.decode?_eq_some.mp htext
        split at h
        · rename_i c' hc
          obtain rfl := Except.ok.inj h
          exact ⟨text, hread, hc⟩
        · cases h
  · rintro ⟨text, hread, hc⟩
    rw [hread]
    dsimp only
    rw [Utf8.decode?_encode]
    dsimp only
    rw [hc]

/-- A configuration below the environment is that of its document. -/
theorem below_documented (h : below files path = .ok given) :
    ∃ d, Document files path d ∧ Documented d given := by
  cases path with
  | none =>
      obtain rfl := Except.ok.inj h
      exact ⟨_, .absent, reader_documented rfl⟩
  | some path =>
      obtain ⟨text, hread, hc⟩ := ofFile_eq_ok.mp h
      obtain ⟨table, htable, hdocumented⟩ := ofText?_documented hc
      exact ⟨_, .file hread htable, hdocumented⟩

/-! ## The environment -/

/-- The variables in the order in which they are read. -/
def numberVariables : List String :=
  ["PLUGIN_HARNESS_TIMEOUT_MS", "PLUGIN_HARNESS_POLL_MS", "PLUGIN_HARNESS_CAPACITY"]

/-- The first variable that is set to something that is no number. -/
def firstUnreadable? (env : Environment) : Option String :=
  numberVariables.find? fun name => env.Unreadable name

/-- A number is that of the variable if the variable is set, and else the
one below. -/
def Overrides (env : Environment) (name : String) (below value : Nat) : Prop :=
  (∃ bytes, env name = some bytes ∧ Numeric bytes value) ∨ env name = none ∧ value = below

/-- What a configuration comes to below an environment. -/
inductive Layered (env : Environment) (given : Config) : Except ConfigFault Config → Prop
  /-- The fault names the first variable that is no number. -/
  | refused {name text : String} (hfirst : firstUnreadable? env = some name)
    (hquoted : ∀ s, env name = some (Utf8.encode s) → text = s) :
    Layered env given (.error (.variable name text))
  | layered {c : Config} (hall : firstUnreadable? env = none)
    (hwait : Overrides env "PLUGIN_HARNESS_TIMEOUT_MS" given.waitTimeout c.waitTimeout)
    (hpoll : Overrides env "PLUGIN_HARNESS_POLL_MS" given.pollInterval c.pollInterval)
    (hcapacity : Overrides env "PLUGIN_HARNESS_CAPACITY" given.captureCapacity c.captureCapacity)
    (hsettings : c.settings = given.settings) :
    Layered env given (.ok c)

section

variable {name : String} {names : List String}

theorem find?_unreadable (h : env.Unreadable name) :
    (name :: names).find? (fun name => env.Unreadable name) = some name :=
  List.find?_cons_of_pos (decide_eq_true h)

theorem find?_readable (h : ¬ env.Unreadable name) :
    (name :: names).find? (fun name => env.Unreadable name)
      = names.find? fun name => env.Unreadable name :=
  List.find?_cons_of_neg (mt of_decide_eq_true h)

theorem read_of_ok {o : Option Nat} (h : VariableRead env name (.ok o)) (below : Nat) :
    ¬ env.Unreadable name ∧ Overrides env name below (o.getD below) := by
  cases h with
  | unset h =>
      refine ⟨?_, .inr ⟨h, rfl⟩⟩
      rintro ⟨value, hset, -⟩
      rw [h] at hset
      cases hset
  | @number value n hset h =>
      refine ⟨?_, .inl ⟨value, hset, h⟩⟩
      rintro ⟨value', hset', hno⟩
      obtain rfl := Option.some.inj (hset.symm.trans hset')
      exact hno n h

theorem read_of_error {fault : ConfigFault} (h : VariableRead env name (.error fault)) :
    env.Unreadable name ∧ ∃ text, fault = .variable name text
      ∧ ∀ s, env name = some (Utf8.encode s) → text = s := by
  cases h with
  | @unreadable text hset h =>
      exact ⟨⟨_, hset, h⟩, text, rfl, fun s hs =>
        Utf8.encode_inj (Option.some.inj (hset.symm.trans hs))⟩

end

/-- The environment is laid over a configuration as if values that are no
texts were not set. -/
theorem overriddenBy_layered (given : Config) (env : Environment) :
    Layered env.texts given (given.overriddenBy env) := by
  -- Each of the variables may end the reading, and only in this order.
  have htimeout := variableNumber_read env timeoutVariable
  have hpoll := variableNumber_read env pollVariable
  have hcapacity := variableNumber_read env capacityVariable
  unfold overriddenBy
  cases h₁ : variableNumber env timeoutVariable with
  | error fault =>
      rw [h₁] at htimeout
      obtain ⟨hun, text, rfl, hquoted⟩ := read_of_error htimeout
      exact .refused (find?_unreadable hun) hquoted
  | ok timeout =>
      rw [h₁] at htimeout
      obtain ⟨hno₁, hover₁⟩ := read_of_ok htimeout given.waitTimeout
      cases h₂ : variableNumber env pollVariable with
      | error fault =>
          rw [h₂] at hpoll
          obtain ⟨hun, text, rfl, hquoted⟩ := read_of_error hpoll
          refine .refused ?_ hquoted
          exact (find?_readable hno₁).trans (find?_unreadable hun)
      | ok poll =>
          rw [h₂] at hpoll
          obtain ⟨hno₂, hover₂⟩ := read_of_ok hpoll given.pollInterval
          cases h₃ : variableNumber env capacityVariable with
          | error fault =>
              rw [h₃] at hcapacity
              obtain ⟨hun, text, rfl, hquoted⟩ := read_of_error hcapacity
              refine .refused ?_ hquoted
              exact (find?_readable hno₁).trans
                ((find?_readable hno₂).trans (find?_unreadable hun))
          | ok capacity =>
              rw [h₃] at hcapacity
              obtain ⟨hno₃, hover₃⟩ := read_of_ok hcapacity given.captureCapacity
              refine .layered ?_ hover₁ hover₂ hover₃ rfl
              exact (find?_readable hno₁).trans
                ((find?_readable hno₂).trans (find?_readable hno₃))

/-! ## Values that are no text -/

theorem firstUnreadable?_texts {name : String} (hfirst : firstUnreadable? env = some name)
    (htext : env.IsText name) : firstUnreadable? env.texts = some name := by
  obtain ⟨hun, before, after, hvars, hbefore⟩ := List.find?_eq_some_iff_append.mp hfirst
  refine List.find?_eq_some_iff_append.mpr
    ⟨?_, before, after, hvars, fun other hother => ?_⟩
  · exact decide_eq_true (Environment.unreadable_texts.mpr ⟨of_decide_eq_true hun, htext⟩)
  · have hno : ¬ env.Unreadable other := by simpa using hbefore other hother
    simpa using fun h => hno (Environment.unreadable_texts.mp h).1

theorem firstUnreadable?_eq_none :
    firstUnreadable? env = none ↔ ∀ name ∈ numberVariables, ¬ env.Unreadable name := by
  simp [firstUnreadable?, List.find?_eq_none]

/-- Where all variables are texts or not set, nothing is passed over. -/
theorem Overrides.of_texts {name : String} {below value : Nat} (hno : ¬ env.Unreadable name)
    (h : Overrides env.texts name below value) : Overrides env name below value := by
  rcases h with ⟨bytes, hset, hnumeric⟩ | ⟨hunset, rfl⟩
  · exact .inl ⟨bytes, (Environment.texts_eq_some.mp hset).1, hnumeric⟩
  · refine .inr ⟨Option.eq_none_iff_forall_ne_some.mpr fun bytes hset => ?_, rfl⟩
    refine hno ⟨bytes, hset, fun n hn => ?_⟩
    obtain ⟨text, rfl⟩ := hn.text
    exact Environment.texts_eq_none.mp hunset ⟨text, hset⟩

/-- What is layered without the values that are no text is layered with
them just if the first variable that is no number is a text, should there
be one. -/
theorem layered_iff {result : Except ConfigFault Config} (h : Layered env.texts given result) :
    Layered env given result ↔ ∀ name, firstUnreadable? env = some name → env.IsText name := by
  constructor
  · intro h' name hfirst
    cases h' with
    | @refused other text hother _ =>
        obtain rfl := Option.some.inj (hfirst.symm.trans hother)
        cases h with
        | refused htexts _ =>
            have hun := List.find?_some htexts
            exact (Environment.unreadable_texts.mp (of_decide_eq_true hun)).2
    | layered hall =>
        rw [hall] at hfirst
        cases hfirst
  · intro htext
    -- The first unreadable variable is the same with the other values and without.
    have hsame : firstUnreadable? env = firstUnreadable? env.texts := by
      cases hfirst : firstUnreadable? env with
      | some name => exact (firstUnreadable?_texts hfirst (htext name hfirst)).symm
      | none =>
          rw [eq_comm, firstUnreadable?_eq_none]
          intro name hname hun
          exact firstUnreadable?_eq_none.mp hfirst name hname
            (Environment.unreadable_texts.mp hun).1
    cases h with
    | @refused name text hfirst hquoted =>
        have hset : env.IsText name := htext name (hsame.trans hfirst)
        refine .refused (hsame.trans hfirst) fun s hs => hquoted s ?_
        exact Environment.texts_eq_some.mpr ⟨hs, s, rfl⟩
    | layered hall hwait hpoll hcapacity hsettings =>
        have hno := firstUnreadable?_eq_none.mp (hsame.trans hall)
        exact .layered (hsame.trans hall) (hwait.of_texts (hno _ (by simp [numberVariables])))
          (hpoll.of_texts (hno _ (by simp [numberVariables])))
          (hcapacity.of_texts (hno _ (by simp [numberVariables]))) hsettings

/-- **Layers.** Loading a configuration lays the environment over the file,
and the file over the standard values. Variables that are set to something
that is no text are left out of this; so it is true of the environment as
it is just if the first variable that is no number, if there is one, is a
text. -/
theorem load_layered_iff (h : below files path = .ok given) (env : Environment) :
    (∃ d, Document files path d ∧ Documented d given)
      ∧ Layered env.texts given (load files path env)
      ∧ (Layered env given (load files path env)
        ↔ ∀ name, firstUnreadable? env = some name → env.IsText name) := by
  rw [load_eq h env]
  have hlayered := overriddenBy_layered given env
  exact ⟨below_documented h, hlayered, layered_iff hlayered⟩

end

/-! ## A stray byte -/

namespace StrayByte

/-- A byte that no text has in it. -/
def value : Bytes := [0xFF]

/-- The capacity is a number, and the interval is no text. -/
def env : Environment := fun name =>
  if name = "PLUGIN_HARNESS_CAPACITY" then some (Utf8.encode " 32 ")
  else if name = "PLUGIN_HARNESS_POLL_MS" then some value
  else none

/-- The time is no text. -/
def timeoutEnv : Environment := fun name =>
  if name = "PLUGIN_HARNESS_TIMEOUT_MS" then some value else none

def path : Path := Path.ofText "/c"

/-- Two of the numbers. -/
def text : String := "wait_timeout_ms = 750\npoll_interval_ms = 50\n"

def files : FileSystem :=
  ⟨[([], .directory ⟨0o755⟩), ([Path.ofText "c"], .file ⟨0o644⟩ (Utf8.encode text))], []⟩

def given : Config := ⟨750, 50, 4096, []⟩

theorem parsed : ofText? text = some given := by
  decide +kernel

theorem below_eq : below files (some path) = .ok given := by
  have hread : files.read path = .ok (Utf8.encode text) := by cbv
  exact ofFile_eq_ok.mpr ⟨text, hread, parsed⟩

theorem not_text (text : String) : value ≠ Utf8.encode text := by
  intro h
  have hdecode : Utf8.decode? value = none := by cbv
  rw [h, Utf8.decode?_encode] at hdecode
  cases hdecode

theorem first : firstUnreadable? env = some "PLUGIN_HARNESS_POLL_MS" := by
  decide +kernel

theorem timeout_first : firstUnreadable? timeoutEnv = some "PLUGIN_HARNESS_TIMEOUT_MS" := by
  decide +kernel

end StrayByte

/-- The interval is that of the file, though its variable is set, and no
number. -/
theorem load_layered_iff_strayByte :
    below StrayByte.files (some StrayByte.path) = .ok StrayByte.given
      ∧ load StrayByte.files (some StrayByte.path) StrayByte.env = .ok ⟨750, 50, 32, []⟩
      ∧ ¬ Layered StrayByte.env StrayByte.given
          (load StrayByte.files (some StrayByte.path) StrayByte.env) := by
  have hload : StrayByte.given.overriddenBy StrayByte.env = .ok ⟨750, 50, 32, []⟩ := by cbv
  refine ⟨StrayByte.below_eq, (load_eq StrayByte.below_eq _).trans hload, fun h => ?_⟩
  obtain ⟨-, -, hiff⟩ := load_layered_iff StrayByte.below_eq StrayByte.env
  obtain ⟨text, htext⟩ := hiff.mp h _ StrayByte.first
  exact StrayByte.not_text text (Option.some.inj htext)

/-- The time is the standard one, though its variable is set, and no number. -/
theorem load_not_layered :
    load .empty none StrayByte.timeoutEnv = .ok standard
      ∧ ¬ Layered StrayByte.timeoutEnv standard (load .empty none StrayByte.timeoutEnv) := by
  have hload : load .empty none StrayByte.timeoutEnv = .ok standard := by cbv
  refine ⟨hload, fun h => ?_⟩
  rw [hload] at h
  cases h with
  | layered hall =>
      rw [StrayByte.timeout_first] at hall
      cases hall

end Conformance.Config
