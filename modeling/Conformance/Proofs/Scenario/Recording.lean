import Conformance.Proofs.Scenario.Attachment
import Conformance.Proofs.Scenario.Moves

/-!
# Runs with a recorded plugin

A run cannot tell whether the calls of its plugin are recorded. Every
part of a run with the recorded plugin is that part of the run with the
plugin itself (`Copies`), so the whole scenario ends in the same way, and
with the record the state of the plugin comes as well
(`Harness.run_unrecorded`).
-/

namespace Conformance

variable {σ : Type}

/-- The run with the plugin itself, of a run with the recorded one. -/
def Run.unrecorded (run : Run (Recorded σ)) (p : Plugin σ) : Run σ :=
  ⟨run.host, run.bridge.unrecorded p, run.observed, run.captures, run.looks, run.phase⟩

def Progress.unrecorded (pr : Progress (Recorded σ)) (p : Plugin σ) : Progress σ :=
  ⟨pr.run.unrecorded p, pr.halt⟩

section

variable (p : Plugin σ) (run : Run (Recorded σ)) (pr : Progress (Recorded σ))

@[simp] theorem unrecorded_run : (pr.unrecorded p).run = pr.run.unrecorded p := rfl

@[simp] theorem unrecorded_halt : (pr.unrecorded p).halt = pr.halt := rfl

@[simp] theorem hits_unrecorded (sc : Scenario) (expect : ParcelExpectation) :
    (run.unrecorded p).hits sc expect = run.hits sc expect := rfl

end

/-- A part of a run with the recorded plugin, and the same part of the
run with the plugin itself. -/
structure Copies (p : Plugin σ) (pr : Progress (Recorded σ)) (pr' : Progress σ) : Prop where
  plugin : pr.run.bridge.plugin = p.recorded
  copy : pr' = pr.unrecorded p

namespace Copies

variable {p : Plugin σ} {run : Run (Recorded σ)}

theorem goesOn (hp : run.bridge.plugin = p.recorded) :
    Copies p run.goesOn (run.unrecorded p).goesOn :=
  ⟨hp, rfl⟩

theorem fails (hp : run.bridge.plugin = p.recorded) (failure : ExpectationFailure) :
    Copies p (run.fails failure) ((run.unrecorded p).fails failure) :=
  ⟨hp, rfl⟩

theorem stops (hp : run.bridge.plugin = p.recorded) (step : Option String)
    (fault : HarnessFault) :
    Copies p (run.stops step fault) ((run.unrecorded p).stops step fault) :=
  ⟨hp, rfl⟩

theorem andThen {pr : Progress (Recorded σ)} {pr' : Progress σ}
    {next : Run (Recorded σ) → Progress (Recorded σ)} {next' : Run σ → Progress σ}
    (h : Copies p pr pr')
    (hnext : ∀ run, run.bridge.plugin = p.recorded →
      Copies p (next run) (next' (run.unrecorded p))) :
    Copies p (pr.andThen next) (pr'.andThen next') := by
  obtain ⟨run, halt⟩ := pr
  obtain ⟨hp, rfl⟩ := h
  cases halt with
  | none => exact hnext run hp
  | some reason => exact ⟨hp, rfl⟩

theorem each {act : Run (Recorded σ) → Step → Progress (Recorded σ)}
    {act' : Run σ → Step → Progress σ}
    (hact : ∀ run step, run.bridge.plugin = p.recorded →
      Copies p (act run step) (act' (run.unrecorded p) step)) :
    ∀ (steps : List Step) {run : Run (Recorded σ)}, run.bridge.plugin = p.recorded →
      Copies p (Run.each act run steps) (Run.each act' (run.unrecorded p) steps)
  | [], _, hp => goesOn hp
  | step :: r, run, hp => (hact run step hp).andThen fun _ hp => each hact r hp

end Copies

namespace Run

variable {p : Plugin σ} {run : Run (Recorded σ)}

/-! ## The channel -/

theorem idle_plugin (hp : run.bridge.plugin = p.recorded) :
    run.idle.bridge.plugin = p.recorded :=
  (Bridge.perform_plugin run.bridge run.host (.idle 0)).trans hp

theorem idle_unrecorded (hp : run.bridge.plugin = p.recorded) :
    (run.unrecorded p).idle = run.idle.unrecorded p := by
  simp only [idle, unrecorded, Bridge.idle_unrecorded hp]

theorem collect_copies (hp : run.bridge.plugin = p.recorded) (step : Option String) :
    Copies p (run.collect step) ((run.unrecorded p).collect step) := by
  have hplugin := (Bridge.perform_plugin run.idle.bridge run.host .drain).trans (idle_plugin hp)
  have hdrain : (run.idle.unrecorded p).bridge.drain
      = (run.idle.bridge.drain.1, run.idle.bridge.drain.2.unrecorded p) :=
    Bridge.drain_unrecorded p _
  simp only [Bridge.perform] at hplugin
  unfold collect
  simp only [idle_unrecorded hp, hdrain]
  generalize run.idle.bridge.drain = drained at hplugin ⊢
  obtain ⟨answer, bridge⟩ := drained
  cases answer with
  | ok parcels => exact .goesOn hplugin
  | error fault => exact .stops hplugin step (.bridge fault)

theorem waitNext_copies (hp : run.bridge.plugin = p.recorded) (step : String) (bound : Nat) :
    Copies p (run.waitNext step bound) ((run.unrecorded p).waitNext step bound) := by
  have hplugin := (Bridge.perform_plugin run.bridge run.host (.waitNext bound)).trans hp
  have hwait : (run.unrecorded p).bridge.waitNext (run.unrecorded p).host bound
      = ((run.bridge.waitNext run.host bound).1,
          (run.bridge.waitNext run.host bound).2.unrecorded p) :=
    Bridge.waitNext_unrecorded hp run.host bound
  simp only [Bridge.perform] at hplugin
  unfold waitNext
  rw [hwait]
  generalize run.bridge.waitNext run.host bound = waited at hplugin ⊢
  obtain ⟨answer, bridge⟩ := waited
  cases answer with
  | ok parcel => exact .goesOn hplugin
  | error fault => exact .stops hplugin (some step) (.bridge fault)

theorem waitUntil_copies (sc : Scenario) (step : String) (expect : ParcelExpectation)
    (timeout deadline look : Nat) (hp : run.bridge.plugin = p.recorded) :
    Copies p (run.waitUntil sc step expect timeout deadline look)
      ((run.unrecorded p).waitUntil sc step expect timeout deadline look) := by
  fun_induction waitUntil sc step expect timeout deadline look run with
  | case1 look run collected reason hhalt =>
      obtain ⟨hplugin, hcopy⟩ : Copies p collected _ := collect_copies hp (some step)
      rw [waitUntil, hcopy]
      simp only [unrecorded_halt, hhalt]
      exact ⟨hplugin, rfl⟩
  | case2 look run collected hhalt henough =>
      obtain ⟨hplugin, hcopy⟩ : Copies p collected _ := collect_copies hp (some step)
      rw [waitUntil, hcopy]
      simp only [unrecorded_halt, hhalt, unrecorded_run, hits_unrecorded, henough, if_true]
      exact .goesOn hplugin
  | case3 look run collected hhalt hfew hlate =>
      obtain ⟨hplugin, hcopy⟩ : Copies p collected _ := collect_copies hp (some step)
      rw [waitUntil, hcopy]
      simp only [unrecorded_halt, hhalt, unrecorded_run, hits_unrecorded, hfew, if_false, hlate,
        dif_pos]
      exact ⟨hplugin, rfl⟩
  | case4 look run collected hhalt hfew hearly waited reason hstop =>
      obtain ⟨hplugin, hcopy⟩ : Copies p collected _ := collect_copies hp (some step)
      obtain ⟨hplugin', hcopy'⟩ : Copies p waited _ := waitNext_copies hplugin step _
      rw [waitUntil, hcopy]
      simp only [unrecorded_halt, hhalt, unrecorded_run, hits_unrecorded, hfew, if_false, hearly,
        dif_neg, not_false_iff, hcopy', hstop]
      exact ⟨hplugin', rfl⟩
  | case5 look run collected hhalt hfew hearly waited hgo ih =>
      obtain ⟨hplugin, hcopy⟩ : Copies p collected _ := collect_copies hp (some step)
      obtain ⟨hplugin', hcopy'⟩ : Copies p waited _ := waitNext_copies hplugin step _
      rw [waitUntil.eq_def sc step expect timeout deadline look (run.unrecorded p), hcopy]
      simp only [unrecorded_halt, hhalt, unrecorded_run, hits_unrecorded, hfew, if_false, hearly,
        dif_neg, not_false_iff, hcopy', hgo]
      exact ih hplugin'

/-! ## The steps -/

theorem prepare_copies (sc : Scenario) (step : Step) (hp : run.bridge.plugin = p.recorded) :
    Copies p (prepare sc run step) (prepare sc (run.unrecorded p) step) := by
  unfold prepare
  split
  · rename_i fixture _
    have hfiles : (run.unrecorded p).host = run.host := rfl
    rw [hfiles]
    dsimp only
    split <;> exact ⟨hp, rfl⟩
  · rename_i request _
    have hplugin := (Bridge.perform_plugin run.bridge run.host
      (.deliver request.capability (requestJson sc.workspace request))).trans hp
    have hdeliver : (run.unrecorded p).bridge.deliver (run.unrecorded p).host request.capability
        (requestJson sc.workspace request) = _ :=
      Bridge.deliver_unrecorded hp run.host request.capability (requestJson sc.workspace request)
    simp only [Bridge.perform] at hplugin
    rw [hdeliver]
    generalize run.bridge.deliver run.host request.capability
      (requestJson sc.workspace request) = delivered at hplugin ⊢
    obtain ⟨answer, bridge⟩ := delivered
    cases answer with
    | ok _ => exact .goesOn hplugin
    | error fault => exact .stops hplugin _ _
  · exact .goesOn hp

theorem assert_copies (sc : Scenario) (step : Step) (hp : run.bridge.plugin = p.recorded) :
    Copies p (assert sc run step) (assert sc (run.unrecorded p) step) := by
  have hhost : (run.unrecorded p).host = run.host := rfl
  unfold assert
  split
  · exact waitUntil_copies sc step.name _ _ _ _ hp
  · unfold checkPresence
    rw [hhost]
    dsimp only
    split
    · exact .stops hp _ _
    · split
      · exact .goesOn hp
      · exact .fails hp _
  · unfold checkState
    dsimp only
    rw [hhost]
    split
    · split <;> exact ⟨hp, rfl⟩
    · exact ⟨hp, rfl⟩
    · split <;> exact ⟨hp, rfl⟩
  · exact .goesOn hp

theorem checkStream_copies (sc : Scenario) (hp : run.bridge.plugin = p.recorded) :
    Copies p (run.checkStream sc) ((run.unrecorded p).checkStream sc) := by
  have hplugin := idle_plugin hp
  have hstats : (run.idle.unrecorded p).bridge.stats = run.idle.bridge.stats := rfl
  have hobserved : (run.idle.unrecorded p).observed = run.idle.observed := rfl
  unfold checkStream
  rw [idle_unrecorded hp]
  dsimp only
  rw [hstats, hobserved]
  split
  · exact .goesOn hplugin
  · exact .fails hplugin _

/-! ## The whole run -/

theorem execute_copies (sc : Scenario) (hp : run.bridge.plugin = p.recorded) :
    Copies p (execute sc run) (execute sc (run.unrecorded p)) := by
  unfold execute
  refine .andThen (.each (fun _ step hp => prepare_copies sc step hp) _ hp) fun run hp => ?_
  have hentered : (run.enter .trigger).bridge.plugin = p.recorded := hp
  refine .andThen (collect_copies hentered none) fun run hp => ?_
  refine .andThen (.each (fun _ step hp => assert_copies sc step hp) _ hp) fun run hp => ?_
  refine .andThen (collect_copies hp none) fun run hp => ?_
  exact .andThen (checkStream_copies sc hp) fun run hp => .goesOn hp

end Run

/-! ## Scenarios -/

/-- What is left after a scenario, without the record. -/
def Ended.unrecorded (e : Ended (Recorded σ)) : Ended σ :=
  ⟨e.report, e.files, e.plugin.map Recorded.state⟩

/-- The source of the recorded plugin. -/
def Source.recorded : Source σ → Source (Recorded σ)
  | .given p s => .given p.recorded ⟨s, []⟩
  | .library path => .library path
  | .script => .script

namespace Harness

/-- The harness that records the calls of the modules it loads. -/
def recorded (hn : Harness σ) : Harness (Recorded σ) where
  host := hn.host
  root := hn.root
  load path := (hn.load path).map fun found => (found.1.recorded, ⟨found.2, []⟩)
  config := hn.config
  clock := hn.clock

theorem recorded_host (hn : Harness σ) : hn.recorded.host = hn.host := rfl

theorem recorded_root (hn : Harness σ) : hn.recorded.root = hn.root := rfl

theorem recorded_load (hn : Harness σ) (path : Path) :
    hn.recorded.load path
      = (hn.load path).map fun found => (found.1.recorded, ⟨found.2, []⟩) := rfl

theorem loaded_recorded (hn : Harness σ) (path : Path) :
    hn.recorded.loaded path
      = (hn.loaded path).map fun found => (found.1.recorded, ⟨found.2, []⟩) := by
  unfold loaded
  rw [recorded_load]
  cases hn.load path <;> rfl

theorem found_recorded (hn : Harness σ) (script : Script) (source : Source σ) :
    hn.recorded.found script source.recorded
      = (hn.found script source).map fun found => (found.1.recorded, ⟨found.2, []⟩) := by
  cases source with
  | given p s => rfl
  | library path => exact loaded_recorded hn path
  | script =>
      unfold Source.recorded found
      cases script.plugin with
      | some path => exact loaded_recorded hn path
      | none => rfl

theorem attach_recorded (hn : Harness σ) (h : Host) (p : Plugin σ) (s : Recorded σ) :
    hn.attach h p s.state
      = match hn.recorded.attach h p.recorded s with
        | .ok b => .ok (b.unrecorded p)
        | .error (fault, s') => .error (fault, s'.map Recorded.state) := by
  simp only [attach, Bridge.attach_unrecorded p h s, recorded]
  cases Bridge.attach h p.recorded s hn.config.settings hn.config.captureCapacity <;> rfl

theorem conclude_unrecorded (script : Script) (ws : Workspace) {p : Plugin σ}
    {pr : Progress (Recorded σ)} (hp : pr.run.bridge.plugin = p.recorded) :
    conclude script ws (pr.unrecorded p) = (conclude script ws pr).unrecorded := by
  have hunload : (pr.run.idle.unrecorded p).bridge.unload (pr.run.idle.unrecorded p).host = _ :=
    Bridge.unload_unrecorded (Run.idle_plugin hp) pr.run.host
  unfold conclude
  rw [unrecorded_run, Run.idle_unrecorded hp]
  dsimp only
  rw [hunload]
  rfl

theorem runAttached_unrecorded (hn : Harness σ) (h : Host) (ws : Workspace) (script : Script)
    {p : Plugin σ} {b : Bridge (Recorded σ)} (hp : b.plugin = p.recorded) :
    hn.runAttached h ws script (b.unrecorded p)
      = (hn.recorded.runAttached h ws script b).unrecorded := by
  have hcopies : Copies p
      (Run.execute (hn.recorded.scenario ws script b) ⟨h, b, [], 0, 0, .parse⟩)
      (Run.execute (hn.scenario ws script (b.unrecorded p))
        ⟨h, b.unrecorded p, [], 0, 0, .parse⟩) := Run.execute_copies _ hp
  rw [runAttached_eq, runAttached_eq, hcopies.copy]
  exact conclude_unrecorded script ws hcopies.plugin

/-- **Recording.** A scenario ends in the same way whether the calls of
its plugin are recorded or not. -/
theorem run_unrecorded (hn : Harness σ) (script : Script) (source : Source σ) :
    (hn.recorded.run script source.recorded).unrecorded = hn.run script source := by
  unfold run
  rw [recorded_host, recorded_root]
  cases Workspace.create hn.host.files hn.root with
  | error fault => rfl
  | ok made =>
      obtain ⟨files, ws⟩ := made
      dsimp only
      rw [startPlugin_eq, startPlugin_eq, found_recorded]
      cases hn.found script source with
      | error fault => rfl
      | ok found =>
          obtain ⟨p, s⟩ := found
          have hattach := attach_recorded hn { hn.host with files } p ⟨s, []⟩
          dsimp only [Except.map] at hattach ⊢
          cases hb : hn.recorded.attach { hn.host with files } p.recorded ⟨s, []⟩ with
          | error stopped =>
              rw [hb] at hattach
              rw [hattach]
              rfl
          | ok b =>
              rw [hb] at hattach
              obtain ⟨d, -, rfl⟩ := attach_started hb
              rw [hattach]
              exact (runAttached_unrecorded hn _ ws script rfl).symm

end Harness

end Conformance
