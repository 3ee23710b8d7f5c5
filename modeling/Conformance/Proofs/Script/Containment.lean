import Conformance.Proofs.Path.Components
import Conformance.Proofs.Scenario.Attachment
import Conformance.Proofs.Scenario.Deeds
import Conformance.Proofs.Scenario.Passing
import Conformance.Proofs.Script.Readings

/-!
# The paths of scripts

A path that a script names leads down from the workspace by its
components, in whatever sort of step it stands (`Step.read_contained`).
For the reader of a step and the fixture ask the same of it. So the two
refusals of a fixture that look at names alone are never met while a
script runs that could be read (`Script.ofText_contained`): what is left
to refuse is what the files say.
-/

namespace Conformance

/-- The paths that a directive names in the workspace: where it acts, and
where a new link leads. -/
def Directive.paths : Directive → List Path
  | .fixture ⟨path, .symlink target⟩ => [path, target]
  | .fixture change => [change.path]
  | .monitor request => [request.path]
  | .await _ => []
  | .presence path _ => [path]
  | .fileState path _ => [path]

theorem Directive.fixture_paths {change : Fixture} {P : Path → Prop} :
    (∀ p ∈ (Directive.fixture change).paths, P p)
      ↔ P change.path ∧ ∀ target, change.action = .symlink target → P target := by
  obtain ⟨path, action⟩ := change
  cases action <;> simp [paths]

/-! ## Steps -/

namespace Step

/-- The only action with a path of its own is the link, and its target is
looked at. -/
theorem action_contained {e : FixtureEntries} {mode : Option Permissions} {target : Path}
    (h : e.action mode = .ok (.symlink target)) : Path.isContained target = true := by
  unfold FixtureEntries.action at h
  cases hverb : e.verb with
  | symlink =>
      rw [hverb] at h
      obtain ⟨p, hp, heq⟩ := Result.map_eq_ok.mp h
      obtain ⟨q, -, hcontained⟩ := Result.bind_eq_ok.mp hp
      cases heq
      exact (contained_eq_ok.mp hcontained).2
  | create | mkdir | remove =>
      rw [hverb] at h
      cases h
  | chmod | write | append =>
      rw [hverb] at h
      obtain ⟨_, _, heq⟩ := Result.map_eq_ok.mp h
      cases heq

variable {capability kind : String} {d : Datum} {directive : Directive}

theorem read_contained (h : read capability kind d = .ok directive) :
    ∀ p ∈ directive.paths, Path.isContained p = true := by
  unfold read at h
  split at h
  · -- a fixture
    obtain ⟨e, -, h⟩ := Result.bind_eq_ok.mp h
    obtain ⟨path, hpath, h⟩ := Result.bind_eq_ok.mp h
    obtain ⟨mode, -, h⟩ := Result.bind_eq_ok.mp h
    obtain ⟨action, haction, h⟩ := Result.bind_eq_ok.mp h
    obtain rfl := Except.ok.inj h
    refine Directive.fixture_paths.mpr ⟨(contained_eq_ok.mp hpath).2, ?_⟩
    rintro target rfl
    exact action_contained haction
  · -- a request
    obtain ⟨request, -, h⟩ := Result.bind_eq_ok.mp h
    obtain ⟨path, hpath, h⟩ := Result.bind_eq_ok.mp h
    obtain rfl := Except.ok.inj h
    exact List.forall_mem_singleton.mpr (contained_eq_ok.mp hpath).2
  · -- a wait, which names no path
    obtain ⟨wait, -, rfl⟩ := Result.map_eq_ok.mp h
    exact fun p hp => nomatch hp
  · -- an assertion that a path is there
    obtain ⟨⟨path, present⟩, -, h⟩ := Result.bind_eq_ok.mp h
    obtain ⟨path, hpath, h⟩ := Result.bind_eq_ok.mp h
    obtain rfl := Except.ok.inj h
    exact List.forall_mem_singleton.mpr (contained_eq_ok.mp hpath).2
  · -- an assertion about a file
    obtain ⟨⟨path, entries⟩, -, h⟩ := Result.bind_eq_ok.mp h
    obtain ⟨path, hpath, h⟩ := Result.bind_eq_ok.mp h
    obtain ⟨expect, -, h⟩ := Result.bind_eq_ok.mp h
    obtain rfl := Except.ok.inj h
    exact List.forall_mem_singleton.mpr (contained_eq_ok.mp hpath).2
  · cases h

/-- There is no step that was not an item of the list. -/
theorem mem_of_ofList {items : List Datum} {index : Nat} {steps : List Step}
    (h : ofList capability index items = .ok steps) {step : Step} (hstep : step ∈ steps) :
    ∃ i, ∃ x ∈ items, ofDatum capability i x = .ok step := by
  obtain ⟨hlength, hitems⟩ := ofList_ok h
  obtain ⟨i, hi, hget⟩ := List.mem_iff_getElem.mp hstep
  obtain ⟨x, hx⟩ : ∃ x, items[i]? = some x := ⟨_, List.getElem?_eq_getElem (hlength ▸ hi)⟩
  obtain ⟨step', hstep', hread⟩ := hitems i _ hx
  rw [List.getElem?_eq_getElem hi, hget] at hstep'
  obtain rfl := Option.some.inj hstep'
  exact ⟨index + i, x, List.mem_of_getElem? hx, hread⟩

end Step

theorem Script.ofDatum_contained {d : Datum} {s : Script} (h : ofDatum d = .ok s) :
    ∀ step ∈ s.steps, ∀ p ∈ step.directive.paths, Path.isContained p = true := by
  intro step hstep
  obtain ⟨es, capability, items, -, -, hlist⟩ := ofDatum_ok h
  obtain ⟨i, x, -, hx⟩ := Step.mem_of_ofList hlist hstep
  obtain ⟨es', rest, kind, -, -, hread⟩ := Step.ofDatum_ok hx
  exact Step.read_contained hread

/-! ## Fixtures -/

namespace Workspace

/-- Applies a fixture with no look at the names in it: only the files can
refuse it. -/
def applyAsked (ws : Workspace) (h : Host) (fixture : Fixture) :
    FileSystem × Option FixtureFault :=
  let path := ws.resolve fixture.path
  match ws.confine h fixture.action path with
  | .error fault => (h.files, some fault)
  | .ok () =>
    let done := perform h path fixture.action
    (done.files, done.fault.map fun fault => .io fixture.action.name path fault)

/-- Neither refusal that looks at names alone is met. -/
structure Unrefused (fixture : Fixture) : Prop where
  path : Path.isContained fixture.path = true
  target : strayTarget? fixture.action = none

theorem Unrefused.apply_eq {fixture : Fixture} (hf : Unrefused fixture) (ws : Workspace)
    (h : Host) : ws.apply h fixture = ws.applyAsked h fixture := by
  unfold apply applyAsked
  dsimp only
  rw [hf.path, hf.target]
  cases ws.confine h fixture.action (ws.resolve fixture.path) <;> rfl

theorem unrefused_of_paths {fixture : Fixture}
    (h : ∀ p ∈ (Directive.fixture fixture).paths, Path.isContained p = true) :
    Unrefused fixture := by
  obtain ⟨hpath, htarget⟩ := Directive.fixture_paths.mp h
  refine ⟨hpath, ?_⟩
  unfold strayTarget?
  split
  · rename_i target haction
    exact if_pos (htarget target haction)
  · rfl

end Workspace

/-! ## Runs -/

/-- Only steps of the script are carried out. -/
theorem Run.mem_script_of_executed {σ : Type} {sc : Scenario} {run : Run σ} {e : CarriedOut σ}
    (he : e ∈ executed sc run) : e.step ∈ sc.script.steps := by
  have hmem := (executed_steps sc run).subset (List.mem_map_of_mem he)
  rcases List.mem_append.mp hmem with hmem | hmem
  · exact (List.mem_filter.mp hmem).1
  · exact (List.mem_filter.mp hmem).1

theorem Harness.outset_script {σ : Type} {hn : Harness σ} {script : Script} {source : Source σ}
    {sc : Scenario} {start : Run σ} (h : hn.outset script source = some (sc, start)) :
    sc.script = script := by
  rcases outset_cases hn script source with ⟨hnone, -⟩ | ⟨ws, p, s, host, b, -, -, hsome, -⟩
  · rw [hnone] at h
    cases h
  · rw [hsome] at h
    obtain ⟨rfl, -⟩ := Prod.mk.injEq .. |>.mp (Option.some.inj h)
    rfl

/-- **Scripts are contained.** Every path in a script that could be read
leads down from every root by its components; and of no fixture that a
run of the script carries out are the names refused, whatever the files
are by then. -/
theorem Script.ofText_contained {text : String} {s : Script} (h : ofText text = .ok s) :
    (∀ step ∈ s.steps, ∀ p ∈ step.directive.paths, p.StaysBelow)
      ∧ ∀ (σ : Type) (hn : Harness σ) (source : Source σ) (sc : Scenario) (start : Run σ),
        hn.outset s source = some (sc, start) →
          ∀ e ∈ Run.executed sc start, ∀ change, e.step.directive = .fixture change →
            Workspace.Unrefused change
              ∧ ∀ host, sc.workspace.apply host change = sc.workspace.applyAsked host change := by
  have hpaths : ∀ step ∈ s.steps, ∀ p ∈ step.directive.paths, Path.isContained p = true := by
    unfold ofText at h
    split at h
    · exact ofDatum_contained h
    · cases h
  constructor
  · intro step hstep p hp
    exact Path.staysBelow_iff.mpr (hpaths step hstep p hp)
  · intro σ hn source sc start houtset e he change hchange
    have hstep := Run.mem_script_of_executed he
    rw [Harness.outset_script houtset] at hstep
    have hf := Workspace.unrefused_of_paths (hchange ▸ hpaths e.step hstep)
    exact ⟨hf, hf.apply_eq sc.workspace⟩

/-! ## A script with a link -/

namespace LinkedFile

def text : String :=
  "\x7bkind: file, capability: watch, steps: ["
    ++ "\x7bkind: before, path: ./d//l, action: symlink, target: f/.\x7d, "
    ++ "\x7bkind: monitor-request, path: .\x7d, "
    ++ "\x7bkind: exists, path: d/, exists: true\x7d]\x7d"

def link : Fixture := ⟨Path.ofText "./d//l", .symlink (Path.ofText "f/.")⟩

def paths : List Path := ["./d//l", "f/.", ".", "d/"].map Path.ofText

def source : Source RehearsalRecord :=
  .given EchoScenario.rehearsal.plugin ⟨EchoScenario.descriptor, 0, [], none, 0⟩

def firstFixture (s : Script) : Option Fixture :=
  (s.stepsIn .before).head?.bind (·.directive.change?)

theorem parsed : ∃ s, Script.ofText text = .ok s
    ∧ s.steps.flatMap (·.directive.paths) = paths ∧ firstFixture s = some link := by
  have h : (Script.ofText text).toOption.map
      (fun s => (s.steps.flatMap (·.directive.paths), firstFixture s))
        = some (paths, some link) := by
    decide +kernel
  cases hs : Script.ofText text with
  | error fault =>
      rw [hs] at h
      cases h
  | ok s =>
      rw [hs] at h
      obtain ⟨hpaths, hfirst⟩ := Prod.mk.injEq .. |>.mp (Option.some.inj h)
      exact ⟨s, rfl, hpaths, hfirst⟩

theorem outset (s : Script) :
    ∃ sc start, EchoScenario.harness.outset s source = some (sc, start) ∧ sc.script = s := by
  unfold Harness.outset
  rw [EchoScenario.course.created]
  exact ⟨_, _, rfl, rfl⟩

theorem carried_out {σ : Type} {sc : Scenario} (start : Run σ) {change : Fixture}
    (h : firstFixture sc.script = some change) :
    ∃ e ∈ Run.executed sc start, e.step.directive = .fixture change := by
  obtain ⟨step, hstep, hchange⟩ := Option.bind_eq_some_iff.mp h
  obtain ⟨rest, hsteps⟩ := List.head?_eq_some_iff.mp hstep
  unfold Directive.change? at hchange
  split at hchange
  · rename_i hdirective
    obtain rfl := Option.some.inj hchange
    refine ⟨⟨step, Run.carryOut sc (start.enter .before) step⟩, ?_, hdirective⟩
    rw [Run.executed, hsteps]
    exact List.mem_append_left _ (List.mem_cons_self ..)
  · cases hchange

end LinkedFile

/-- A script that makes a link, with dots and separators in its paths. -/
theorem Script.ofText_contained_linkedFile :
    ∃ s, ofText LinkedFile.text = .ok s
      ∧ s.steps.flatMap (·.directive.paths) = LinkedFile.paths
      ∧ (∀ p ∈ LinkedFile.paths, p.StaysBelow)
      ∧ ∃ sc start, EchoScenario.harness.outset s LinkedFile.source = some (sc, start)
        ∧ ∃ e ∈ Run.executed sc start, e.step.directive = .fixture LinkedFile.link
          ∧ Workspace.Unrefused LinkedFile.link := by
  obtain ⟨s, hs, hpaths, hfirst⟩ := LinkedFile.parsed
  obtain ⟨hbelow, hrun⟩ := Script.ofText_contained hs
  obtain ⟨sc, start, houtset, rfl⟩ := LinkedFile.outset s
  obtain ⟨e, he, hlink⟩ := LinkedFile.carried_out start hfirst
  refine ⟨_, hs, hpaths, fun p hp => ?_, sc, start, houtset, e, he, hlink,
    (hrun _ _ _ sc start houtset e he _ hlink).1⟩
  rw [← hpaths] at hp
  obtain ⟨step, hstep, hp⟩ := List.mem_flatMap.mp hp
  exact hbelow step hstep p hp

end Conformance
