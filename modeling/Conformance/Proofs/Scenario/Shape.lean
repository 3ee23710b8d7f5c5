import Conformance.Proofs.Bridge.Lifecycle
import Conformance.Proofs.Scenario.Attachment
import Conformance.Proofs.Scenario.Moves
import Conformance.Proofs.Scenario.Stages

/-!
# The shape of reports

The phase of a report, its verdict and its teardown come from different
places: the phase from the part of the run that was entered last, the
verdict from what stopped the run or from the stop of the plugin, the
teardown from both. They fit together all the same (`Harness.run_shaped`),
whatever a script says and a plugin does.

A run has to be looked at once: each phase has only some ways to stop in
it (`Halt.In`), and a run that does not stop ends in `done`
(`Run.execute_closes`). No halt is possible at the trigger, for the
plugin is loaded all along (`Run.Carries`), and only a plugin that was
unloaded keeps parcels from being collected.
-/

namespace Conformance

variable {σ : Type} {p : Plugin σ}

/-! ## Phases and halts -/

/-- The ways to stop in a phase. -/
inductive Halt.In : Phase → Halt → Prop where
  | prepare (step : String) (fault : HarnessFault) : Halt.In .before (.errored (some step) fault)
  | assert (step : String) (fault : HarnessFault) : Halt.In .after (.errored (some step) fault)
  | fail (failure : ExpectationFailure) : Halt.In .after (.failed failure)

namespace Progress

/-- A part of a run stays in a phase, and if it stops it does so in a way
of that phase. -/
structure Keeps (phase : Phase) (pr : Progress σ) : Prop where
  stays : pr.run.phase = phase
  halt : ∀ reason, pr.halt = some reason → reason.In phase

/-- A run comes to its end, or stops in a way of the phase it is in. -/
structure Closes (pr : Progress σ) : Prop where
  done : pr.halt = none → pr.run.phase = .done
  halt : ∀ reason, pr.halt = some reason → reason.In pr.run.phase

variable {phase : Phase} {pr : Progress σ} {run : Run σ}

namespace Keeps

theorem goesOn (h : run.phase = phase) : run.goesOn.Keeps phase :=
  ⟨h, by simp⟩

theorem stops {step : String} {fault : HarnessFault} (h : run.phase = phase)
    (hin : Halt.In phase (.errored (some step) fault)) :
    (run.stops (some step) fault).Keeps phase :=
  ⟨h, by simpa using hin⟩

theorem fails {failure : ExpectationFailure} (h : run.phase = .after) :
    (run.fails failure).Keeps .after :=
  ⟨h, by simpa using Halt.In.fail failure⟩

theorem andThen {next : Run σ → Progress σ} (hp : pr.Keeps phase)
    (hnext : ∀ run, run.phase = phase → (next run).Keeps phase) :
    (pr.andThen next).Keeps phase := by
  obtain ⟨run, halt⟩ := pr
  cases halt with
  | none => exact hnext run hp.stays
  | some reason => exact hp

theorem each {act : Run σ → Step → Progress σ}
    (hact : ∀ run step, run.phase = phase → (act run step).Keeps phase) :
    ∀ (steps : List Step) {run : Run σ}, run.phase = phase → (Run.each act run steps).Keeps phase
  | [], _, h => .goesOn h
  | step :: r, run, h => (hact run step h).andThen fun _ h' => each hact r h'

end Keeps

end Progress

namespace Run

variable {ws : Workspace} {run : Run σ}

/-! ## The parts of a run -/

theorem collect_keeps (h : run.phase = .after) (step : String) :
    (run.collect (some step)).Keeps .after := by
  unfold collect
  dsimp only
  cases run.idle.bridge.drain with
  | mk answer bridge =>
      cases answer with
      | ok parcels => exact .goesOn h
      | error fault => exact .stops h (.assert step _)

theorem waitNext_keeps (h : run.phase = .after) (step : String) (bound : Nat) :
    (run.waitNext step bound).Keeps .after := by
  unfold waitNext
  cases run.bridge.waitNext run.host bound with
  | mk answer bridge =>
      cases answer with
      | ok parcel => exact .goesOn h
      | error fault => exact .stops h (.assert step _)

theorem waitUntil_keeps (sc : Scenario) (step : String) (expect : ParcelExpectation)
    (timeout deadline look : Nat) (run : Run σ) (h : run.phase = .after) :
    (run.waitUntil sc step expect timeout deadline look).Keeps .after := by
  fun_induction waitUntil sc step expect timeout deadline look run with
  | case1 look run collected reason hhalt =>
      exact ⟨(collect_keeps h step).stays, (collect_keeps h step).halt⟩
  | case2 look run collected hhalt henough => exact .goesOn (collect_keeps h step).stays
  | case3 look run collected hhalt hfew hlate => exact .fails (collect_keeps h step).stays
  | case4 look run collected hhalt hfew hearly waited reason hstop =>
      have hwaited : waited.Keeps .after := waitNext_keeps (collect_keeps h step).stays ..
      exact ⟨hwaited.stays, hwaited.halt⟩
  | case5 look run collected hhalt hfew hearly waited hgo ih =>
      exact ih (waitNext_keeps (collect_keeps h step).stays ..).stays

theorem prepare_keeps (sc : Scenario) (run : Run σ) (step : Step) (h : run.phase = .before) :
    (prepare sc run step).Keeps .before := by
  unfold prepare
  split
  · dsimp only
    split
    · exact .goesOn h
    · exact .stops h (.prepare _ _)
  · split
    · exact .goesOn h
    · exact .stops h (.prepare _ _)
  · exact .goesOn h

theorem Looks.keeps {step : String} {pr : Progress σ} (hlooks : Looks step run pr)
    (h : run.phase = .after) : pr.Keeps .after := by
  cases hlooks with
  | goesOn => exact .goesOn h
  | fails kind expected actual => exact .fails h
  | stops _ | breaksOff _ => exact .stops h (.assert _ _)

theorem assert_keeps (sc : Scenario) (run : Run σ) (step : Step) (h : run.phase = .after) :
    (assert sc run step).Keeps .after := by
  unfold assert
  -- The steps that wait, look for a file, compare a state, and the rest.
  split
  · exact waitUntil_keeps _ _ _ _ _ _ _ h
  · exact (checkPresence_looks ..).keeps h
  · exact (checkState_looks ..).keeps h
  · exact .goesOn h

theorem checkStream_keeps (sc : Scenario) (h : run.phase = .after) :
    (run.checkStream sc).Keeps .after := by
  unfold checkStream
  dsimp only
  split
  · exact .goesOn h
  · exact .fails h

/-! ## The plugin of a run -/

structure Carries (p : Plugin σ) (run : Run σ) : Prop where
  plugin : run.bridge.plugin = p
  loaded : run.bridge.loaded = true

theorem move_carries {run run' : Run σ} (hm : Move ws run run') (h : run.Carries p) :
    run'.Carries p := by
  cases hm with
  | aside hb _ _ => exact ⟨hb ▸ h.plugin, hb ▸ h.loaded⟩
  | change _ => exact ⟨h.plugin, h.loaded⟩
  | operate op hop =>
      obtain ⟨hloaded, -⟩ := Bridge.perform_loaded h.loaded run.host op
      exact ⟨(Bridge.perform_plugin _ _ op).trans h.plugin, hloaded hop⟩

theorem Carries.moves {run run' : Run σ} (h : run.Carries p) (hm : Moves ws run run') :
    run'.Carries p :=
  moves_induction (fun _ _ => move_carries) hm h

theorem Carries.enter (h : run.Carries p) (phase : Phase) : (run.enter phase).Carries p :=
  ⟨h.plugin, h.loaded⟩

theorem Carries.idle (h : run.Carries p) : run.idle.Carries p :=
  ⟨(Bridge.perform_plugin _ run.host (.idle 0)).trans h.plugin,
    (Bridge.perform_loaded h.loaded run.host (.idle 0)).1 (by simp)⟩

theorem Carries.collect_keeps (h : run.Carries p) {phase : Phase} (hphase : run.phase = phase)
    (step : Option String) : (run.collect step).Keeps phase := by
  rw [collect_of_loaded h.idle.loaded]
  exact .goesOn hphase

/-! ## The whole run -/

theorem Carries.andThen (sc : Scenario) {phase : Phase} {pr : Progress σ}
    {next : Run σ → Progress σ} (h : run.Carries p) (hreach : Reaches sc.workspace run pr)
    (hkeep : pr.Keeps phase)
    (hnext : ∀ run, run.Carries p → run.phase = phase → (next run).Closes) :
    (pr.andThen next).Closes := by
  obtain ⟨run', halt⟩ := pr
  cases halt with
  | none => exact hnext run' (h.moves hreach.moves) hkeep.stays
  | some reason =>
      have hphase : run'.phase = phase := hkeep.stays
      refine ⟨fun hnone => (Option.some_ne_none _ hnone).elim, fun reason' hreason => ?_⟩
      exact hphase ▸ hkeep.halt reason' hreason

/-- **The run.** It ends in `done`, or stops in a way of its phase. -/
theorem execute_closes (sc : Scenario) (h : run.Carries p) : (execute sc run).Closes := by
  unfold execute
  -- One part after the other; the plugin is still loaded before each.
  refine (h.enter .before).andThen sc (each_reaches (prepare_reaches sc) _ _)
    (.each (prepare_keeps sc) _ rfl) fun run h _ => ?_
  refine (h.enter .trigger).andThen sc (collect_reaches _ none)
    ((h.enter .trigger).collect_keeps rfl none) fun run h _ => ?_
  refine (h.enter .after).andThen sc (each_reaches (assert_reaches sc) _ _)
    (.each (assert_keeps sc) _ rfl) fun run h hphase => ?_
  refine h.andThen sc (collect_reaches _ none) (h.collect_keeps hphase none)
    fun run h hphase => ?_
  refine h.andThen sc (checkStream_reaches sc run) (checkStream_keeps sc hphase)
    fun run h _ => ?_
  exact ⟨fun _ => rfl, by simp⟩

end Run

/-! ## Reports -/

/-- Phase, verdict and teardown of a report fit together. What is said
about the stop of the plugin has to be so. -/
structure Report.Shaped (stopFails : BridgeFault → Prop) (r : Report) : Prop where
  passed : r.verdict = .passed → r.phase = .done ∧ r.teardown = none
  failed : ∀ failure, r.verdict = .failed failure → r.phase = .after
  setup : ∀ fault, r.verdict = .errored none fault → r.phase = .parse ∨ r.phase = .done
  step : ∀ step fault, r.verdict = .errored (some step) fault →
    r.phase = .before ∨ r.phase = .after ∨ (r.phase = .parse ∧ fault.category = .script)
  done : r.phase = .done →
    r.verdict = .passed ∨ ∃ fault, r.verdict = .errored none (.bridge fault) ∧ stopFails fault
  teardown : ∀ fault, r.teardown = some fault →
    stopFails fault
      ∧ ((∃ failure, r.verdict = .failed failure) ∨ ∃ step error, r.verdict = .errored step error)
      ∧ (r.phase = .before ∨ r.phase = .after)
  phase : r.phase ≠ .trigger ∧ r.phase ≠ .failed

theorem Report.Shaped.mono {P Q : BridgeFault → Prop} {r : Report} (h : r.Shaped P)
    (hPQ : ∀ fault, P fault → Q fault) : r.Shaped Q where
  passed := h.passed
  failed := h.failed
  setup := h.setup
  step := h.step
  done hphase := (h.done hphase).imp_right fun ⟨fault, hv, hp⟩ => ⟨fault, hv, hPQ fault hp⟩
  teardown fault hfault := (h.teardown fault hfault).imp_left (hPQ fault)
  phase := h.phase

namespace Harness

/-- The plugin of a scenario was started, and when its run was over the
stop failed with this fault. -/
inductive StopFails (hn : Harness σ) (script : Script) (source : Source σ) (fault : BridgeFault) :
    Prop where
  | intro {files : FileSystem} {ws : Workspace} {p : Plugin σ} {s : σ} {d : Descriptor}
    {b : Bridge σ} {run : Run σ}
    (created : Workspace.create hn.host.files hn.root = .ok (files, ws))
    (found : hn.found script source = .ok (p, s))
    (started : (p.start s { hn.host with files } hn.config.settings).outcome = .done d)
    (attached : hn.attach { hn.host with files } p s = .ok b)
    (ran : (Run.execute (hn.scenario ws script b)
      ⟨{ hn.host with files }, b, [], 0, 0, .parse⟩).run.idle = run)
    (stop : (p.stop run.bridge.state run.host).outcome.checked "stop" = .error fault)

theorem unload_answer {b : Bridge σ} (hb : b.loaded = true) (h : Host) :
    (b.unload h).1 = (b.plugin.stop b.state h).outcome.checked "stop" := by
  simp [Bridge.unload, hb]

/-- A halt in a way of the phase gives a report that fits together,
however the stop of the plugin ends. -/
theorem shaped_of_halt {stopFails : BridgeFault → Prop} {r : Report} {halt : Option Halt}
    {stopped : Except BridgeFault Unit} (hverdict : r.verdict = verdictOf halt stopped)
    (hteardown : r.teardown = teardownOf halt stopped) (hdone : halt = none → r.phase = .done)
    (hhalt : ∀ reason, halt = some reason → reason.In r.phase)
    (hstop : ∀ fault, stopped = .error fault → stopFails fault) : r.Shaped stopFails := by
  obtain ⟨_, _, verdict, phase, _, _, _, teardown⟩ := r
  obtain rfl : verdict = verdictOf halt stopped := hverdict
  obtain rfl : teardown = teardownOf halt stopped := hteardown
  cases halt with
  | none =>
      obtain rfl : phase = .done := hdone rfl
      cases stopped <;> constructor <;> simp_all [verdictOf, teardownOf]
  | some reason =>
      cases hhalt reason rfl <;> cases stopped <;> constructor <;>
        simp_all [verdictOf, teardownOf]

/-- A scenario that does not come to its steps names one only if it is
malformed. -/
theorem refusal_shaped {stopFails : BridgeFault → Prop} {scenario : String}
    {step : Option String} {fault : HarnessFault}
    (hstep : step = none ∨ fault.category = .script) :
    (refusal scenario step fault).Shaped stopFails := by
  constructor <;> simp [refusal]
  rintro step' rfl
  simpa using hstep

theorem scriptRefusal_shaped {stopFails : BridgeFault → Prop} (scenario : String)
    (fault : ScriptFault) : (scriptRefusal scenario fault).Shaped stopFails :=
  refusal_shaped (.inr rfl)

/-- A scenario whose plugin was attached comes to a report that fits
together, and what it says about the stop is what the stop comes to. -/
theorem runAttached_shaped {hn : Harness σ} {script : Script} {source : Source σ}
    {files : FileSystem} {ws : Workspace} {s : σ} {b : Bridge σ}
    (created : Workspace.create hn.host.files hn.root = .ok (files, ws))
    (found : hn.found script source = .ok (p, s))
    (attached : hn.attach { hn.host with files } p s = .ok b) :
    (hn.runAttached { hn.host with files } ws script b).report.Shaped
      (hn.StopFails script source) := by
  obtain ⟨d, started, hb⟩ := attach_started attached
  have hcarries : Run.Carries p ⟨{ hn.host with files }, b, [], 0, 0, .parse⟩ := by
    rw [hb]
    exact ⟨rfl, rfl⟩
  rw [runAttached_eq]
  generalize hpr : Run.execute (hn.scenario ws script b)
    ⟨{ hn.host with files }, b, [], 0, 0, .parse⟩ = pr
  have hclosed : pr.Closes := hpr ▸ Run.execute_closes _ hcarries
  -- The plugin that is stopped is the one that was attached.
  have hlast : pr.run.idle.Carries p :=
    (hcarries.moves (hpr ▸ (Run.execute_reaches _ _).moves)).idle
  unfold conclude
  refine shaped_of_halt rfl rfl hclosed.done hclosed.halt fun fault hfault => ?_
  refine .intro created found started attached (congrArg (·.run.idle) hpr) ?_
  rwa [unload_answer hlast.loaded, hlast.plugin] at hfault

/-- **The shape of reports.** For every script, or text of one, every
configuration and every plugin the parts of the report fit together. What
it says about the stop of the plugin is what the stop comes to of a
plugin that was started. -/
theorem run_shaped (hn : Harness σ) (source : Source σ) :
    (∀ script, (hn.run script source).report.Shaped (hn.StopFails script source))
      ∧ ∀ text, (hn.runText text source).report.Shaped fun fault =>
          ∃ script, Script.ofText text = .ok script ∧ hn.StopFails script source fault := by
  have hrun : ∀ script, (hn.run script source).report.Shaped (hn.StopFails script source) := by
    intro script
    unfold run
    cases hcreate : Workspace.create hn.host.files hn.root with
    | error fault => exact refusal_shaped (.inl rfl)
    | ok made =>
        obtain ⟨files, ws⟩ := made
        dsimp only
        rw [startPlugin_eq]
        cases hfound : hn.found script source with
        | error fault => exact refusal_shaped (.inl rfl)
        | ok found =>
            obtain ⟨p, s⟩ := found
            dsimp only
            cases hattach : hn.attach { hn.host with files } p s with
            | error stopped => exact refusal_shaped (.inl rfl)
            | ok b => exact runAttached_shaped hcreate hfound hattach
  refine ⟨hrun, fun text => ?_⟩
  unfold runText
  cases htext : Script.ofText text with
  | ok script => exact (hrun script).mono fun fault hfails => ⟨script, rfl, hfails⟩
  | error fault => exact scriptRefusal_shaped "" fault

end Harness

end Conformance
