import Mathlib
import Conformance.Plugin.Rehearsed
import Conformance.Proofs.Bridge.Lifecycle
import Conformance.Proofs.Scenario.Recording
import Conformance.Proofs.Workspace.Tended

/-!
# The end of a scenario

Whatever stops a run, the same things come after it. The plugin was
loaded all along, so its stop is the first one and no use of it was
refused (`Run.Attended`); and the workspace was standing all along, so
the stop still sees it (`Run.execute_tended`). Every move of a run keeps
both. Then the plugin is let go, and the workspace is removed. A plugin
that does not start is let go without a stop, and its workspace is
removed as well (`Harness.run_torn_down`).

How far the removal gets is up to the permissions that fixtures have set
in the workspace.
-/

namespace Conformance

open FileSystem

variable {σ : Type} {p : Plugin σ} {settings : Settings} {ws : Workspace} {files : FileSystem}
  {place : Place}

/-! ## Runs -/

namespace Run

/-- A run whose plugin is loaded and on record. -/
structure Attended (p : Plugin σ) (settings : Settings) (run : Run (Recorded σ)) : Prop where
  loaded : run.bridge.loaded = true
  recording : run.bridge.Recording p settings

theorem move_attended {run run' : Run (Recorded σ)} (hm : Move ws run run')
    (h : run.Attended p settings) : run'.Attended p settings := by
  cases hm with
  | aside hb _ _ => exact ⟨hb ▸ h.loaded, hb ▸ h.recording⟩
  | change _ => exact ⟨h.loaded, h.recording⟩
  | operate op hop =>
      obtain ⟨hloaded, -⟩ := Bridge.perform_loaded h.loaded run.host op
      exact ⟨hloaded hop, Bridge.recording_perform _ _ op h.recording⟩

/-- **The plugin.** It is loaded when a run is over, and no use of it was
refused. -/
theorem execute_attended (sc : Scenario) {run : Run (Recorded σ)}
    (h : run.Attended p settings) :
    (execute sc run).run.idle.Attended p settings
      ∧ ∀ step, (execute sc run).halt ≠ some (.errored step (.bridge .useAfterUnload)) := by
  obtain ⟨hmoves, hfault⟩ := execute_reaches sc run
  have hkept : ∀ {run'}, Moves sc.workspace run run' → run'.Attended p settings := fun hm =>
    moves_induction (fun _ _ => move_attended) hm h
  refine ⟨hkept (hmoves.trans (idle_moves _)), fun step hhalt => ?_⟩
  obtain ⟨before, hbefore, hmeets⟩ := hfault step _ hhalt
  cases hmeets with
  | operation hanswer =>
      exact (Bridge.perform_loaded (hkept hbefore).loaded before.host _).2 hanswer
  | other hbridge _ => exact hbridge _ rfl

theorem move_tended {run run' : Run σ} (hf : ws.Founded files place) (hm : Move ws run run')
    (h : run.host.Truthful ∧ ws.Tended files run.host.files) :
    run'.host.Truthful ∧ ws.Tended files run'.host.files := by
  obtain ⟨htrue, ht⟩ := h
  cases hm with
  | aside _ hh _ => exact hh ▸ ⟨htrue, ht⟩
  | change fixture => exact ⟨htrue, ht.apply hf htrue fixture⟩
  | operate _ _ => exact ⟨htrue, ht⟩

/-- Of its host a run changes nothing but the files. -/
theorem moves_host {run run' : Run σ} (hm : Moves ws run run') :
    run'.host = { run.host with files := run'.host.files } := by
  have hstep : ∀ r r' : Run σ, Move ws r r' →
      r.host = { run.host with files := r.host.files } →
      r'.host = { run.host with files := r'.host.files } := by
    intro r r' hmove hr
    cases hmove with
    | aside _ hh _ => rwa [hh]
    | change fixture =>
        simp only [Run.change]
        rw [hr]
    | operate op _ => exact hr
  exact moves_induction hstep hm rfl

/-- **The workspace.** It stands when a run is over. -/
theorem execute_tended (sc : Scenario) (run : Run σ) (hf : sc.workspace.Founded files place)
    (htrue : run.host.Truthful) (ht : sc.workspace.Tended files run.host.files) :
    (execute sc run).run.host.Truthful
      ∧ sc.workspace.Tended files (execute sc run).run.host.files :=
  moves_induction (fun _ _ => move_tended hf) (execute_reaches sc run).moves ⟨htrue, ht⟩

end Run

/-! ## Reports -/

/-- Neither the verdict of a report nor its teardown is about a fault. -/
def Report.Omits (report : Report) (fault : BridgeFault) : Prop :=
  (∀ step, report.verdict ≠ .errored step (.bridge fault)) ∧ report.teardown ≠ some fault

namespace Harness

theorem refusal_omits {scenario : String} {step : Option String} {fault : HarnessFault}
    {f : BridgeFault} (hfault : fault ≠ .bridge f) : (refusal scenario step fault).Omits f := by
  refine ⟨fun step' heq => hfault ?_, fun heq => by cases heq⟩
  exact (Verdict.errored.inj heq).2

/-- A fault that neither halts a run nor ends its stop is not reported. -/
theorem conclude_omits (script : Script) (ws : Workspace) {pr : Progress σ} {fault : BridgeFault}
    (hhalt : ∀ step, pr.halt ≠ some (.errored step (.bridge fault)))
    (hstop : (pr.run.idle.bridge.unload pr.run.host).1 ≠ .error fault) :
    (conclude script ws pr).report.Omits fault := by
  have hends : ∀ (halt : Option Halt) (stopped : Except BridgeFault Unit),
      (∀ step, halt ≠ some (.errored step (.bridge fault))) → stopped ≠ .error fault →
      (∀ step, verdictOf halt stopped ≠ .errored step (.bridge fault))
        ∧ teardownOf halt stopped ≠ some fault := by
    intro halt stopped hhalt hstopped
    rcases halt with _ | failure | ⟨step', fault'⟩ <;> rcases stopped with fault'' | ⟨⟩ <;>
      simp_all [verdictOf, teardownOf]
  exact hends pr.halt _ hhalt hstop

/-- The caller gets the report of a run that has not broken off. -/
theorem conclude_given? (script : Script) (ws : Workspace) (pr : Progress σ) :
    (conclude script ws pr).given? = some (conclude script ws pr).report
      ∨ ∃ step kind, pr.halt = some (.errored step (.overflow kind)) := by
  have hends : ∀ (halt : Option Halt) (stopped : Except BridgeFault Unit) (step : Option String)
      (kind : TimestampKind), verdictOf halt stopped = .errored step (.overflow kind) →
        halt = some (.errored step (.overflow kind)) := by
    intro halt stopped step kind
    rcases halt with _ | failure | ⟨step', fault⟩ <;> rcases stopped with fault' | ⟨⟩ <;>
      simp [verdictOf]
  unfold Ended.given? Report.brokeOff
  split
  · rename_i step kind hverdict
    exact .inr ⟨step, kind, hends _ _ step kind hverdict⟩
  · exact .inl rfl

/-- **The report.** The caller gets it unless a capture breaks off, which
meets a host with the files of that moment. -/
theorem run_given? (hn : Harness σ) (script : Script) (source : Source σ) :
    (hn.run script source).given? = some (hn.run script source).report
      ∨ ∃ files path kinds kind,
        { hn.host with files }.capture path kinds = .error (.overflow kind) := by
  unfold run
  cases Workspace.create hn.host.files hn.root with
  | error fault => exact .inl rfl
  | ok made =>
      obtain ⟨files, ws⟩ := made
      dsimp only
      rw [startPlugin_eq]
      cases hfound : hn.found script source with
      | error fault =>
          rcases found_eq_error hfound with rfl | ⟨path, reason, rfl⟩ <;> exact .inl rfl
      | ok found =>
          obtain ⟨p, s⟩ := found
          dsimp only
          rw [attach_eq]
          cases (p.start s { hn.host with files } hn.config.settings).outcome.checked "start" with
          | error fault => exact .inl rfl
          | ok d =>
              refine (conclude_given? script ws _).imp_right ?_
              rintro ⟨step, kind, hhalt⟩
              obtain ⟨before, hbefore, hmeets⟩ :=
                (Run.execute_reaches _ _).fault step _ hhalt
              cases hmeets with
              | capture hcapture =>
                  rw [Run.moves_host hbefore] at hcapture
                  exact ⟨_, _, _, kind, hcapture⟩
              | other _ hoverflow => exact absurd rfl (hoverflow kind)

/-! ## The plugin and the workspace -/

/-- What became of a plugin that was started on the host `h`, when in the
end the host was `last`. If it started, it was stopped on that host, and
after that only let go; and otherwise it was let go at once. -/
def WoundUp (p : Plugin σ) (s : σ) (settings : Settings) (h last : Host) (r : Recorded σ) : Prop :=
  match (p.start s h settings).outcome with
  | .done _ => ∃ queries s', (∀ c ∈ queries, PluginCall.isQuery c = true)
    ∧ r = ⟨(p.release (p.stop s' last).state last).2,
        .start settings :: queries ++ [.stop, .release]⟩
  | .failed _ | .panicked _ =>
    r = ⟨(p.release (p.start s h settings).state last).2, [.start settings, .release]⟩

/-- What became of a workspace: it stood on the last host that the plugin
has seen, and it is gone if it could be cleared then. -/
structure TornDown (ws : Workspace) (last : Host) : Prop where
  standing : ∃ mode, last.files.get? ws.location = some (.directory mode)
  gone : (ws.remove last).get? ws.location = none ↔ last.files.Clearable ws.location

theorem tornDown {last : Host} (hf : ws.Founded files place) (htrue : last.Truthful)
    (ht : ws.Tended files last.files) : TornDown ws last :=
  ⟨ht.directory, ht.remove_iff hf htrue⟩

/-- The conclusion stops the plugin of a run and lets it go. -/
theorem conclude_woundUp (script : Script) (ws : Workspace) {pr : Progress (Recorded σ)}
    (h : pr.run.idle.Attended p settings)
    (hhalt : ∀ step, pr.halt ≠ some (.errored step (.bridge .useAfterUnload))) :
    (conclude script ws pr).report.Omits .useAfterUnload
      ∧ ∃ queries s', (∀ c ∈ queries, PluginCall.isQuery c = true)
        ∧ (conclude script ws pr).plugin
          = some ⟨(p.release (p.stop s' pr.run.host).state pr.run.host).2,
              .start settings :: queries ++ [.stop, .release]⟩ := by
  obtain ⟨hloaded, hplugin, queries, hq, hcalls⟩ := h
  obtain ⟨hanswer, hstate⟩ := Bridge.unload_recorded hplugin hloaded pr.run.host
  refine ⟨conclude_omits script ws hhalt ?_, queries, pr.run.idle.bridge.state.state, hq, ?_⟩
  · rw [hanswer]
    exact Bridge.checked_ne_useAfterUnload "stop" _
  · rw [hloaded, if_pos rfl, List.append_nil] at hcalls
    rw [hcalls] at hstate
    exact congrArg some hstate

/-! ## Scenarios -/

/-- A scenario whose plugin starts comes to its conclusion. -/
theorem runAttached_tornDown {hn : Harness (Recorded σ)} (script : Script) {h : Host} {s : σ}
    {b : Bridge (Recorded σ)} (hb : hn.attach h p.recorded ⟨s, []⟩ = .ok b) :
    let ended := hn.runAttached h ws script b
    ended.report.Omits .useAfterUnload
      ∧ ∃ last, ended.files = ws.remove last
        ∧ (∀ {files place}, ws.Founded files place → h.Truthful → ws.Tended files h.files →
            TornDown ws last)
        ∧ ∃ r, ended.plugin = some r ∧ WoundUp p s hn.config.settings h last r := by
  obtain ⟨d, hd, hbridge⟩ := attach_started hb
  have hattended : Run.Attended p hn.config.settings ⟨h, b, [], 0, 0, .parse⟩ := by
    rw [hbridge]
    exact ⟨rfl, rfl, [], by simp, by simp⟩
  obtain ⟨hattended', hhalt⟩ := Run.execute_attended (hn.scenario ws script b) hattended
  obtain ⟨homits, queries, s', hq, hplugin⟩ := conclude_woundUp script ws hattended' hhalt
  have hstart : (p.start s h hn.config.settings).outcome = .done d := hd
  dsimp only
  rw [runAttached_eq]
  refine ⟨homits, _, rfl, fun hf htrue ht => ?_, _, hplugin, ?_⟩
  · obtain ⟨htrue', ht'⟩ :=
      Run.execute_tended (hn.scenario ws script b) ⟨h, b, [], 0, 0, .parse⟩ hf htrue ht
    exact tornDown hf htrue' ht'
  · rw [WoundUp, hstart]
    exact ⟨queries, s', hq, rfl⟩

/-- A plugin that does not start is let go while the workspace stands. -/
theorem attach_woundUp {hn : Harness (Recorded σ)} {h : Host} {s : σ}
    {stopped : StartFault (Recorded σ)}
    (hb : hn.attach h p.recorded ⟨s, []⟩ = .error stopped) :
    stopped.1 ≠ .bridge .useAfterUnload
      ∧ ∃ r, stopped.2 = some r ∧ WoundUp p s hn.config.settings h h r := by
  have hno : ∀ d, (p.start s h hn.config.settings).outcome ≠ .done d := by
    intro d hd
    have hok : hn.attach h p.recorded ⟨s, []⟩ = .ok _ := attach_of_done hd
    rw [hok] at hb
    cases hb
  obtain ⟨fault, hattach, hfault⟩ : ∃ fault, hn.attach h p.recorded ⟨s, []⟩
      = .error (.bridge fault, some _) ∧ fault ≠ .useAfterUnload := attach_of_not_done hno
  obtain rfl := Except.error.inj (hb.symm.trans hattach)
  refine ⟨by simpa using hfault, _, rfl, ?_⟩
  unfold WoundUp
  cases hstart : (p.start s h hn.config.settings).outcome with
  | done d => exact absurd hstart (hno d)
  | failed fault => rfl
  | panicked payload => rfl

/-- **Teardown.** However a scenario ends, a plugin that started was
stopped exactly once, and after that only let go; one that did not start
was never stopped; and no use of it was refused. The workspace was
removed after that. It stood until then, and is gone exactly when every
directory in it could be read, and written where something was in it. The
caller gets a report of all this, unless a capture breaks off at a time
that does not fit. -/
theorem run_torn_down (hn : Harness σ) (script : Script) (source : Source σ) :
    let ended := hn.run script source
    let record := hn.recorded.run script source.recorded
    record.unrecorded = ended
      ∧ (ended.given? = some ended.report ∨ ∃ files path kinds kind,
        { hn.host with files }.capture path kinds = .error (.overflow kind))
      ∧ ended.report.Omits .useAfterUnload
      ∧ match Workspace.create hn.host.files hn.root with
        | .error _ => ended.files = hn.host.files ∧ record.plugin = none
        | .ok (files, ws) => ∃ last, ended.files = ws.remove last
          ∧ (hn.host.Truthful → hn.host.files.IsTree → TornDown ws last)
          ∧ match hn.found script source with
            | .error _ => record.plugin = none
            | .ok (p, s) => ∃ r, record.plugin = some r
              ∧ WoundUp p s hn.config.settings { hn.host with files } last r := by
  have hsame := hn.run_unrecorded script source
  dsimp only
  refine ⟨hsame, hn.run_given? script source, ?_⟩
  rw [← hsame]
  unfold run
  rw [recorded_host, recorded_root]
  cases hcreate : Workspace.create hn.host.files hn.root with
  | error fault => exact ⟨refusal_omits (by simp), rfl, rfl⟩
  | ok made =>
      obtain ⟨files, ws⟩ := made
      have htorn : hn.host.Truthful → hn.host.files.IsTree →
          TornDown ws { hn.host with files } := fun htrue htree => by
        obtain ⟨⟨place, hf⟩, ht, -⟩ := Workspace.create_ok htree hcreate
        exact tornDown hf htrue ht
      dsimp only
      rw [startPlugin_eq, found_recorded]
      cases hfound : hn.found script source with
      | error fault =>
          have hother : fault ≠ .bridge .useAfterUnload := by
            rcases found_eq_error hfound with rfl | ⟨path, reason, rfl⟩ <;> simp
          exact ⟨refusal_omits hother, _, rfl, htorn, rfl⟩
      | ok found =>
          obtain ⟨p, s⟩ := found
          dsimp only [Except.map]
          cases hb : hn.recorded.attach { hn.host with files } p.recorded ⟨s, []⟩ with
          | ok b =>
              obtain ⟨homits, last, hfiles, hstands, hwound⟩ := runAttached_tornDown script hb
              refine ⟨homits, last, hfiles, fun htrue htree => ?_, hwound⟩
              obtain ⟨⟨place, hf⟩, ht, -⟩ := Workspace.create_ok htree hcreate
              exact hstands hf htrue ht
          | error stopped =>
              obtain ⟨hfault, hwound⟩ := attach_woundUp hb
              exact ⟨refusal_omits hfault, _, rfl, htorn, hwound⟩

end Harness

/-! ## A workspace that stays -/

namespace ShutDirectory

def harness : Harness RehearsalRecord where
  host := ⟨.empty, fun _ => none, ⟨0, 0, 0, ⟨0, 0⟩, ⟨0, 0⟩, ⟨0, 0⟩⟩, ⟨fun _ _ _ => .nothing⟩⟩
  root := Path.ofText "/w"
  load _ := .error "no such module"
  config := .standard
  clock := .steady 25

def workspace : Workspace := ⟨Path.ofText "/w", [Path.ofText "w"]⟩

def made : FileSystem := FileSystem.empty.add [Path.ofText "w"] (.directory newDirectory)

def rehearsal : Rehearsal := ⟨.rest, [], [], .rest⟩

def record : RehearsalRecord := ⟨⟨"rest", "1.0", [], []⟩, 0, [], none, 0⟩

def source : Source RehearsalRecord := .given rehearsal.plugin record

/-- A directory is made in the workspace that nobody may read. -/
def script : Script where
  name := "shut"
  description := none
  kind := .file
  timeout := none
  plugin := none
  steps := [⟨"shut", 0, .fixture ⟨Path.ofText "d", .mkdir (some ⟨0⟩)⟩⟩]

theorem created : Workspace.create harness.host.files harness.root = .ok (made, workspace) := by
  cbv

end ShutDirectory

/-- The scenario that leaves its workspace behind ends in that way. -/
theorem Harness.run_torn_down_shutDirectory :
    let ended := ShutDirectory.harness.run ShutDirectory.script ShutDirectory.source
    let record := ShutDirectory.harness.recorded.run ShutDirectory.script
      ShutDirectory.source.recorded
    record.unrecorded = ended
      ∧ ended.report.Omits .useAfterUnload
      ∧ ∃ last, ended.files = ShutDirectory.workspace.remove last
        ∧ TornDown ShutDirectory.workspace last
        ∧ ∃ r, record.plugin = some r
          ∧ WoundUp ShutDirectory.rehearsal.plugin ShutDirectory.record Config.standard.settings
              { ShutDirectory.harness.host with files := ShutDirectory.made } last r := by
  obtain ⟨hsame, -, homits, hends⟩ := Harness.run_torn_down ShutDirectory.harness
    ShutDirectory.script ShutDirectory.source
  rw [ShutDirectory.created] at hends
  obtain ⟨last, hfiles, htorn, hwound⟩ := hends
  exact ⟨hsame, homits, last, hfiles,
    htorn (fun _ => .inl rfl) (isTree_of_nodes (by decide +kernel)), hwound⟩

/-- A scenario can pass and its workspace stay. -/
theorem Harness.run_leaves_workspace :
    let ended := ShutDirectory.harness.run ShutDirectory.script ShutDirectory.source
    Workspace.create ShutDirectory.harness.host.files ShutDirectory.harness.root
        = .ok (ShutDirectory.made, ShutDirectory.workspace)
      ∧ ended.report.verdict = .passed
      ∧ (ended.files.get? ShutDirectory.workspace.location).isSome = true := by
  refine ⟨ShutDirectory.created, ?_, ?_⟩
  · cbv
  · cbv

end Conformance
