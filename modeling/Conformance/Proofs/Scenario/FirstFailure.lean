import Conformance.Proofs.Scenario.Deeds
import Conformance.Proofs.Scenario.Passing
import Conformance.Proofs.Scenario.Recording

/-!
# The first failure decides

A scenario carries out its steps one by one until one of them fails. That
step is named in the verdict, and the end of the scenario is the
conclusion of the run that the step has left, so what would have come
later has no effect (`Harness.first_failure_decides`). What the scenario
has done is what the steps up to there have done, as the tally of its run
says.

Where the document puts the steps of one phase among those of the other
does not matter: of scripts that are `Alike` a scenario cannot tell which
one it runs, for it never looks at the place of a step
(`Run.execute_alike`).
-/

namespace Conformance

variable {σ : Type}

/-! ## The step that is named -/

def Halt.step? : Halt → Option String
  | .failed failure => some failure.step
  | .errored step _ => step

def Verdict.step? : Verdict → Option String
  | .passed => none
  | .failed failure => some failure.step
  | .errored step _ => step

theorem Harness.verdictOf_step? (reason : Halt) (stopped : Except BridgeFault Unit) :
    (verdictOf (some reason) stopped).step? = reason.step? := by
  cases reason <;> rfl

/-- If a part of a run stops, it names this step. -/
def Progress.Names (step : String) (pr : Progress σ) : Prop :=
  ∀ reason, pr.halt = some reason → reason.step? = some step

namespace Run

variable {run : Run σ} {step : String}

theorem names_goesOn : run.goesOn.Names step := by
  simp [Progress.Names]

theorem names_fails {failure : ExpectationFailure} (h : failure.step = step) :
    (run.fails failure).Names step := by
  simp [Progress.Names, Halt.step?, h]

theorem names_stops {fault : HarnessFault} : (run.stops (some step) fault).Names step := by
  simp [Progress.Names, Halt.step?]

theorem collect_names (run : Run σ) (step : String) : (run.collect (some step)).Names step := by
  unfold collect
  dsimp only
  split
  · exact names_goesOn
  · exact names_stops

theorem waitNext_names (run : Run σ) (step : String) (bound : Nat) :
    (run.waitNext step bound).Names step := by
  unfold waitNext
  split
  · exact names_goesOn
  · exact names_stops

theorem waitUntil_names (sc : Scenario) (step : String) (expect : ParcelExpectation)
    (timeout deadline look : Nat) (run : Run σ) :
    (run.waitUntil sc step expect timeout deadline look).Names step := by
  fun_induction waitUntil sc step expect timeout deadline look run with
  | case1 look run collected reason hhalt => exact collect_names run step
  | case2 look run collected hhalt henough => exact names_goesOn
  | case3 look run collected hhalt hfew hlate => exact names_fails rfl
  | case4 look run collected hhalt hfew hearly waited reason hstop =>
      exact waitNext_names collected.run step _
  | case5 look run collected hhalt hfew hearly waited hgo ih => exact ih

theorem Looks.names {pr : Progress σ} (h : Looks step run pr) : pr.Names step := by
  cases h with
  | goesOn => exact names_goesOn
  | fails kind expected actual => exact names_fails rfl
  | stops _ | breaksOff _ => exact names_stops

/-- A step that stops the run is the one that is named. -/
theorem carryOut_names (sc : Scenario) (run : Run σ) (step : Step) :
    (carryOut sc run step).Names step.name := by
  obtain ⟨name, index, directive⟩ := step
  cases directive with
  | fixture change =>
      simp only [carryOut, Directive.phase, prepare]
      split
      · exact names_goesOn
      · exact names_stops
  | monitor request =>
      simp only [carryOut, Directive.phase, prepare]
      split
      · exact names_goesOn
      · exact names_stops
  | await wait => exact waitUntil_names sc name wait.expect _ _ _ _
  | presence path present => exact (checkPresence_looks sc name path present run).names
  | fileState path expect => exact (checkState_looks sc name path expect run).names

end Run

/-! ## Scripts that are alike -/

/-- A step without its place in the document. -/
def Step.content (step : Step) : String × Directive := (step.name, step.directive)

/-- Two scripts say the same in each phase. Their documents may mix the
phases in different ways. -/
structure Script.Alike (s s' : Script) : Prop where
  name : s.name = s'.name
  timeout : s.timeout = s'.timeout
  plugin : s.plugin = s'.plugin
  before : (s.stepsIn .before).map Step.content = (s'.stepsIn .before).map Step.content
  after : (s.stepsIn .after).map Step.content = (s'.stepsIn .after).map Step.content

namespace Run

theorem waitUntil_script (sc : Scenario) (script : Script) (step : String)
    (expect : ParcelExpectation) (timeout deadline look : Nat) (run : Run σ) :
    run.waitUntil { sc with script } step expect timeout deadline look
      = run.waitUntil sc step expect timeout deadline look := by
  have hhits : ∀ run : Run σ, hits { sc with script } expect run = hits sc expect run :=
    fun _ => rfl
  fun_induction waitUntil sc step expect timeout deadline look run with
  | case1 look run collected reason hhalt =>
      rw [waitUntil, hhalt]
  | case2 look run collected hhalt henough =>
      rw [waitUntil]
      simp only [show (run.collect (some step)).halt = none from hhalt, hhits,
        show expect.count ≤ hits sc expect (run.collect (some step)).run from henough, if_true]
      rfl
  | case3 look run collected hhalt hfew hlate =>
      rw [waitUntil]
      simp only [show (run.collect (some step)).halt = none from hhalt, hhits,
        show ¬ expect.count ≤ hits sc expect (run.collect (some step)).run from hfew, if_false,
        hlate, dif_pos]
      rfl
  | case4 look run collected hhalt hfew hearly waited reason hstop =>
      rw [waitUntil, hstop]
      simp only [show (run.collect (some step)).halt = none from hhalt, hhits,
        show ¬ expect.count ≤ hits sc expect (run.collect (some step)).run from hfew, if_false,
        hearly, dif_neg, not_false_iff,
        show ((run.collect (some step)).run.waitNext step _).halt = some reason from hstop]
      rfl
  | case5 look run collected hhalt hfew hearly waited hgo ih =>
      rw [waitUntil]
      simp only [show (run.collect (some step)).halt = none from hhalt, hhits,
        show ¬ expect.count ≤ hits sc expect (run.collect (some step)).run from hfew, if_false,
        hearly, dif_neg, not_false_iff,
        show ((run.collect (some step)).run.waitNext step _).halt = none from hgo]
      exact ih

/-- Of a script, a step looks at nothing but the time to wait; and nothing
looks at the place of a step. -/
theorem carryOut_content {sc : Scenario} {script : Script}
    (htimeout : sc.script.timeout = script.timeout) (run : Run σ) {step step' : Step}
    (hcontent : step.content = step'.content) :
    carryOut { sc with script } run step' = carryOut sc run step := by
  obtain ⟨name, index, directive⟩ := step
  obtain ⟨name', index', directive'⟩ := step'
  obtain ⟨rfl, rfl⟩ := Prod.mk.injEq .. |>.mp hcontent
  cases directive with
  | await wait =>
      have htime : timeoutOf { sc with script } wait = timeoutOf sc wait := by
        rw [timeoutOf, timeoutOf, htimeout]
      simp only [carryOut, Directive.phase, assert, waitFor, waitUntil_script, htime]
  | fixture _ | monitor _ | presence _ _ | fileState _ _ => rfl

theorem each_content {act act' : Run σ → Step → Progress σ}
    (hact : ∀ run step step', step.content = step'.content → act' run step' = act run step) :
    ∀ (steps steps' : List Step) (run : Run σ),
      steps.map Step.content = steps'.map Step.content →
        each act' run steps' = each act run steps
  | [], [], _, _ => rfl
  | [], _ :: _, _, h => by cases h
  | _ :: _, [], _, h => by cases h
  | step :: r, step' :: r', run, h => by
      obtain ⟨hfirst, hrest⟩ := List.cons.injEq .. |>.mp h
      have ih : (fun run => each act' run r') = fun run => each act run r :=
        funext fun run => each_content hact r r' run hrest
      rw [each, each, hact run step step' hfirst, ih]

/-- **Alike scripts.** Their runs are the same. -/
theorem execute_alike (sc : Scenario) {script : Script} (h : sc.script.Alike script)
    (run : Run σ) : execute { sc with script } run = execute sc run := by
  have hact : ∀ (run : Run σ) step step', step.content = step'.content →
      carryOut { sc with script } run step' = carryOut sc run step :=
    fun run _ _ => carryOut_content h.timeout run
  have hbefore : ∀ run : Run σ, each (carryOut { sc with script }) run (script.stepsIn .before)
      = each (carryOut sc) run (sc.script.stepsIn .before) :=
    fun run => each_content hact _ _ run h.before
  have hafter : ∀ run : Run σ, each (carryOut { sc with script }) run (script.stepsIn .after)
      = each (carryOut sc) run (sc.script.stepsIn .after) :=
    fun run => each_content hact _ _ run h.after
  have hcheck : ∀ run : Run σ, checkStream { sc with script } run = checkStream sc run :=
    fun _ => rfl
  simp only [execute_eq, triggered, hbefore, hafter, hcheck]

end Run

namespace Harness

variable {hn : Harness σ} {script : Script} {source : Source σ}

theorem found_recorded_ok {p' : Plugin (Recorded σ)} {s' : Recorded σ}
    (h : hn.recorded.found script source.recorded = .ok (p', s')) :
    ∃ (p : Plugin σ) (s : σ), p' = p.recorded ∧ s' = ⟨s, []⟩ := by
  rw [found_recorded] at h
  cases hfound : hn.found script source with
  | error fault =>
      rw [hfound] at h
      cases h
  | ok found =>
      rw [hfound] at h
      obtain ⟨rfl, rfl⟩ := Prod.mk.injEq .. |>.mp (Except.ok.inj h)
      exact ⟨found.1, found.2, rfl, rfl⟩

/-- A scenario is refused, and then its plugin was handed nothing; or it
runs from its outset to its conclusion, with a plugin that has started. -/
theorem recorded_cases (hn : Harness σ) (script : Script) (source : Source σ) :
    (hn.recorded.outset script source.recorded = none
        ∧ ∃ fault files state, hn.recorded.run script source.recorded
            = ⟨refusal script.name none fault, files, state⟩
          ∧ ∀ r, state = some r → r.requests = [])
      ∨ ∃ sc, ∃ p : Plugin σ, ∃ start,
        hn.recorded.outset script source.recorded = some (sc, start)
          ∧ sc.script = script ∧ Run.Carries p.recorded start
          ∧ start.bridge.state.requests = [] ∧ start.captures = 0
          ∧ hn.recorded.run script source.recorded
              = conclude script sc.workspace (Run.execute sc start) := by
  rcases outset_cases hn.recorded script source.recorded with
    ⟨hnone, fault, files, state, hrun, hstate⟩ | ⟨ws, p', s', h, b, hfound, hb, hsome, hrun⟩
  · refine .inl ⟨hnone, fault, files, state, hrun, ?_⟩
    rcases hstate with rfl | ⟨p', s', h, hfound, hb⟩
    · simp
    · obtain ⟨p, s, rfl, rfl⟩ := found_recorded_ok hfound
      rw [attach_eq] at hb
      split at hb
      · cases hb
      · obtain ⟨-, rfl⟩ := Prod.mk.injEq .. |>.mp (Except.error.inj hb)
        simp [Recorded.requests, Plugin.recorded, PluginCall.request?]
  · obtain ⟨p, s, rfl, rfl⟩ := found_recorded_ok hfound
    obtain ⟨d, -, rfl⟩ := attach_started hb
    exact .inr ⟨_, p, _, hsome, rfl, ⟨rfl, rfl⟩, rfl, rfl, hrun⟩

/-- Scenarios of scripts that are alike end alike. -/
theorem run_alike {script' : Script} (h : script.Alike script') (hn : Harness σ)
    (source : Source σ) : hn.run script' source = hn.run script source := by
  have hstart : ∀ host, hn.startPlugin host script' source = hn.startPlugin host script source := by
    intro host
    cases source with
    | given p s => rfl
    | library path => rfl
    | script => simp only [startPlugin, h.plugin]
  unfold run
  rw [h.name]
  cases Workspace.create hn.host.files hn.root with
  | error fault => rfl
  | ok made =>
      obtain ⟨files, ws⟩ := made
      dsimp only
      rw [hstart]
      cases hn.startPlugin { hn.host with files } script source with
      | error stopped => rfl
      | ok b =>
          have hexecute := Run.execute_alike (hn.scenario ws script b) h
            ⟨{ hn.host with files }, b, [], 0, 0, .parse⟩
          dsimp only
          rw [runAttached_eq, runAttached_eq, ← hexecute, conclude, conclude, h.name]
          rfl

/-! ## What a scenario comes to -/

/-- A scenario comes to what the steps have made of its outset that were
carried out. -/
structure DecidedBy (script : Script) (sc : Scenario) (start : Run (Recorded σ))
    (executed : List (CarriedOut (Recorded σ))) (ended : Ended (Recorded σ)) : Prop where
  inOrder : executed.map (·.step) <+: script.stepsIn .before ++ script.stepsIn .after
  succeeded : ∀ e ∈ executed.dropLast, e.outcome.halt = none
  complete : (∀ e ∈ executed, e.outcome.halt = none) →
    executed.map (·.step) = script.stepsIn .before ++ script.stepsIn .after
  /-- Where a step fails, all that is left to do is the conclusion. -/
  failed : ∀ e, executed.getLast? = some e → e.outcome.halt ≠ none →
    ended = conclude script sc.workspace e.outcome
      ∧ ended.report.verdict.step? = some e.step.name
  captures : ended.report.captures = executed.countP (·.step.directive.isCapture)
  files : ended.files = sc.workspace.remove { start.host with
    files := sc.workspace.applyAll start.host (executed.filterMap (·.step.directive.change?)) }
  requests : ∃ r, ended.plugin = some r
    ∧ (executed.filter (·.succeeded)).filterMap (·.step.directive.request? sc.workspace)
      <+: r.requests
    ∧ r.requests <+: executed.filterMap (·.step.directive.request? sc.workspace)

theorem conclude_requests (script : Script) (ws : Workspace) {p : Plugin σ}
    {pr : Progress (Recorded σ)} (h : pr.run.Carries p.recorded) :
    ∃ r, (conclude script ws pr).plugin = some r
      ∧ r.requests = pr.run.bridge.state.requests := by
  have hidle := h.idle_listens
  obtain ⟨-, hstate⟩ := Bridge.unload_recorded hidle.carries.plugin hidle.carries.loaded
    pr.run.idle.host
  refine ⟨(pr.run.idle.bridge.unload pr.run.idle.host).2.state, rfl, ?_⟩
  rw [hstate, ← hidle.requests]
  simp [Recorded.requests, PluginCall.request?]

theorem conclude_decided {script : Script} {sc : Scenario} {p : Plugin σ}
    {start : Run (Recorded σ)} (hscript : sc.script = script) (h : start.Carries p.recorded)
    (hrequests : start.bridge.state.requests = []) (hcaptures : start.captures = 0) :
    DecidedBy script sc start (Run.executed sc start)
      (conclude script sc.workspace (Run.execute sc start)) := by
  subst hscript
  have ht := Run.execute_tally sc h
  have hidle := ht.carries.idle_listens
  constructor
  · exact Run.executed_steps sc start
  · exact Run.executed_dropLast sc start
  · exact Run.executed_all sc h
  · intro e he hhalt
    have hend := Run.execute_of_halted sc start he hhalt
    obtain ⟨reason, hreason⟩ := Option.ne_none_iff_exists'.mp hhalt
    obtain ⟨run, hrun⟩ := Run.executed_outcome sc start e (List.mem_of_getLast? he)
    have hnamed : reason.step? = some e.step.name :=
      Run.carryOut_names sc run e.step reason (hrun ▸ hreason)
    refine ⟨by rw [hend], ?_⟩
    rw [hend, ← hnamed, ← verdictOf_step? reason, ← hreason]
    rfl
  · have hcount := hidle.captures.trans ht.captures
    rw [hcaptures, Nat.zero_add] at hcount
    exact hcount
  · have hhost := hidle.host.trans ht.host
    rw [← hhost]
    rfl
  · obtain ⟨r, hr, hrequests'⟩ := conclude_requests sc.script sc.workspace ht.carries
    refine ⟨r, hr, ?_, ?_⟩
    · have hdelivered := ht.delivered
      rwa [hrequests, List.nil_append, ← hrequests'] at hdelivered
    · have hasked := ht.asked
      rwa [hrequests, List.nil_append, ← hrequests'] at hasked

/-- **The first failure decides.** The record of its plugin changes
nothing about a scenario. A scenario that does not come to its steps has
done nothing. One that does comes to what its steps decide up to the
first that fails; and a script that says the same in each phase gives the
same end, record and all. -/
theorem first_failure_decides (hn : Harness σ) (script : Script) (source : Source σ) :
    let ended := hn.recorded.run script source.recorded
    ended.unrecorded = hn.run script source
      ∧ (match hn.recorded.outset script source.recorded with
        | none => ended.report.verdict.step? = none ∧ ended.report.captures = 0
          ∧ ∀ r, ended.plugin = some r → r.requests = []
        | some (sc, start) => DecidedBy script sc start (Run.executed sc start) ended)
      ∧ ∀ script', script.Alike script' → hn.run script' source = hn.run script source
        ∧ hn.recorded.run script' source.recorded = ended := by
  refine ⟨run_unrecorded hn script source, ?_, fun script' halike => ?_⟩
  · rcases recorded_cases hn script source with
      ⟨hnone, fault, files, state, hrun, hstate⟩
      | ⟨sc, p, start, hsome, hscript, hcarries, hrequests, hcaptures, hrun⟩
    · rw [hnone, hrun]
      exact ⟨rfl, rfl, hstate⟩
    · rw [hsome, hrun]
      exact conclude_decided hscript hcarries hrequests hcaptures
  · exact ⟨run_alike halike hn source, run_alike halike hn.recorded source.recorded⟩

end Harness

/-! ## A scenario that fails -/

namespace MissingFile

def made (index : Nat) : Step := ⟨"make", index, .fixture ⟨Path.ofText "f", .create [] none⟩⟩

def asked (index : Nat) : Step := ⟨"ask", index, .monitor EchoScenario.request⟩

def captured (index : Nat) : Step := ⟨"capture", index, .fileState (Path.ofText "f") ⟨[]⟩⟩

/-- The step that fails: there is no such file. -/
def missed (index : Nat) : Step := ⟨"miss", index, .presence (Path.ofText "g") true⟩

def script (steps : List Step) : Script := { EchoScenario.script with steps }

/-- The steps that assert stand first in the document. -/
def mixed : Script := script [captured 0, missed 1, made 2, captured 3, asked 4]

def ordered : Script := script [made 0, asked 1, captured 2, missed 3, captured 4]

def source : Source RehearsalRecord :=
  .given EchoScenario.rehearsal.plugin ⟨EchoScenario.descriptor, 0, [], none, 0⟩

theorem alike : mixed.Alike ordered := ⟨rfl, rfl, rfl, rfl, rfl⟩

end MissingFile

/-- The scenario of a file that is missed ends after one capture. -/
theorem Harness.first_failure_decides_missingFile :
    let hn := EchoScenario.harness
    let ended := hn.recorded.run MissingFile.mixed MissingFile.source.recorded
    (∃ sc start, hn.recorded.outset MissingFile.mixed MissingFile.source.recorded
          = some (sc, start)
        ∧ DecidedBy MissingFile.mixed sc start (Run.executed sc start) ended)
      ∧ MissingFile.mixed.Alike MissingFile.ordered
      ∧ hn.recorded.run MissingFile.ordered MissingFile.source.recorded = ended
      ∧ ended.report.verdict.step? = some "miss"
      ∧ ended.report.captures = 1 := by
  obtain ⟨-, hdecided, halike⟩ := Harness.first_failure_decides EchoScenario.harness
    MissingFile.mixed MissingFile.source
  refine ⟨?_, MissingFile.alike, (halike _ MissingFile.alike).2, by cbv, by cbv⟩
  have hoffers : (EchoScenario.harness.recorded.outset MissingFile.mixed
      MissingFile.source.recorded).isSome = true := by cbv
  obtain ⟨⟨sc, start⟩, houtset⟩ := Option.isSome_iff_exists.mp hoffers
  rw [houtset] at hdecided
  exact ⟨sc, start, houtset, hdecided⟩

end Conformance
