import Conformance.Proofs.Scenario.Shape
import Conformance.Proofs.Scenario.Trail
import Conformance.Proofs.Workspace.Fixtures

/-!
# What the steps of a run have done

A step can do three things that last: change the workspace, hand a
request to the plugin, and capture a file. A run has done these things
just so far as its steps have been carried out (`Run.Tally`). Its host is
the one it began with after the fixtures among those steps, in their
order; it counts one capture for each of them that asserts what a file is
like; and the plugin was handed the requests among them, where only the
last can be missing, and only if it failed.

Each step adds its own deed to the tally (`carryOut_deed`), and listening
to the plugin adds nothing (`Run.Listens`).
-/

namespace Conformance

variable {σ : Type}

/-- The request of a call that hands one over. -/
def PluginCall.request? : PluginCall → Option Json
  | .deliver _ request => some request
  | _ => none

/-- The requests that a recorded plugin was handed. -/
def Recorded.requests (s : Recorded σ) : List Json := s.calls.filterMap PluginCall.request?

namespace Directive

def change? : Directive → Option Fixture
  | .fixture change => some change
  | _ => none

def request? (ws : Workspace) : Directive → Option Json
  | .monitor request => some (Run.requestJson ws request)
  | _ => none

def isCapture : Directive → Bool
  | .fileState .. => true
  | _ => false

end Directive

theorem Workspace.applyAll_append (ws : Workspace) : ∀ (l l' : List Fixture) (h : Host),
    ws.applyAll h (l ++ l') = ws.applyAll { h with files := ws.applyAll h l } l'
  | [], _, _ => rfl
  | _ :: r, l', _ => applyAll_append ws r l' _

namespace Bridge

variable {p : Plugin σ} {b : Bridge (Recorded σ)}

theorem idle_calls (hp : b.plugin = p.recorded) (h : Host) (bound : Nat) :
    (b.idle h bound).state.calls = b.state.calls := by
  unfold idle
  split
  · rfl
  · simp [hp]

theorem waitNext_calls (hp : b.plugin = p.recorded) (h : Host) (bound : Nat) :
    (b.waitNext h bound).2.state.calls = b.state.calls := by
  have hidle := idle_calls hp h bound
  unfold waitNext
  split
  · rfl
  · dsimp only
    split
    · exact hidle
    · rfl

/-- Asking for the status is a call, but no request. -/
theorem pollStatus_requests (hp : b.plugin = p.recorded) (h : Host) :
    (b.pollStatus h).2.state.requests = b.state.requests := by
  have hcalls : ((b.plugin.status b.state h).state).requests = b.state.requests := by
    simp [hp, Recorded.requests, PluginCall.request?]
  unfold pollStatus
  split
  · rfl
  · dsimp only
    split <;> exact hcalls

/-- A delivery hands the plugin its request, or nothing; in that case it
fails. -/
theorem deliver_requests (hp : b.plugin = p.recorded) (h : Host) (capability : String)
    (request : Json) :
    (b.deliver h capability request).2.state.requests = b.state.requests ++ [request]
      ∨ (b.deliver h capability request).2.state.requests = b.state.requests
        ∧ ∃ fault, (b.deliver h capability request).1 = .error fault := by
  have hplugin := (pollStatus_plugin b h).trans hp
  have hpoll := pollStatus_requests hp h
  unfold deliver
  generalize b.pollStatus h = polled at hplugin hpoll ⊢
  obtain ⟨answer, b'⟩ := polled
  cases answer with
  | error fault => exact .inr ⟨hpoll, fault, rfl⟩
  | ok d =>
      dsimp only at hplugin hpoll ⊢
      cases route d capability request with
      | error fault => exact .inr ⟨hpoll, fault, rfl⟩
      | ok handler =>
          left
          rw [← hpoll]
          simp [hplugin, after, Recorded.requests, PluginCall.request?]

end Bridge

namespace Run

variable {p : Plugin σ} {run run' run'' : Run (Recorded σ)}

/-! ## Listening -/

/-- A run has only listened to its plugin. -/
structure Listens (p : Plugin σ) (run run' : Run (Recorded σ)) : Prop where
  carries : run'.Carries p.recorded
  host : run'.host = run.host
  captures : run'.captures = run.captures
  calls : run'.bridge.state.calls = run.bridge.state.calls

theorem Listens.trans (h : Listens p run run') (h' : Listens p run' run'') :
    Listens p run run'' :=
  ⟨h'.carries, h'.host.trans h.host, h'.captures.trans h.captures, h'.calls.trans h.calls⟩

theorem Listens.requests (h : Listens p run run') :
    run'.bridge.state.requests = run.bridge.state.requests :=
  congrArg (List.filterMap PluginCall.request?) h.calls

theorem Carries.enter_listens (h : run.Carries p.recorded) (phase : Phase) :
    Listens p run (run.enter phase) :=
  ⟨h.enter phase, rfl, rfl, rfl⟩

theorem Carries.look_listens (h : run.Carries p.recorded) (n : Nat) :
    Listens p run { run with looks := n } :=
  ⟨⟨h.plugin, h.loaded⟩, rfl, rfl, rfl⟩

theorem Carries.idle_listens (h : run.Carries p.recorded) : Listens p run run.idle :=
  ⟨h.idle, rfl, rfl, Bridge.idle_calls h.plugin _ _⟩

theorem Carries.collect_listens (h : run.Carries p.recorded) (step : Option String) :
    Listens p run (run.collect step).run := by
  refine h.idle_listens.trans ?_
  rw [collect_of_loaded h.idle.loaded]
  exact ⟨⟨h.idle.plugin, h.idle.loaded⟩, rfl, rfl, rfl⟩

theorem Carries.waitNext_listens (h : run.Carries p.recorded) (step : String) (bound : Nat) :
    Listens p run (run.waitNext step bound).run := by
  have hmoves : Moves ⟨[], []⟩ run (run.waitNext step bound).run :=
    (waitNext_reaches run step bound).moves
  have hcarries := h.moves hmoves
  have hcalls := Bridge.waitNext_calls h.plugin run.host bound
  revert hcarries
  unfold waitNext
  generalize run.bridge.waitNext run.host bound = waited at hcalls ⊢
  obtain ⟨answer, bridge⟩ := waited
  cases answer with
  | ok parcel => exact fun hcarries => ⟨hcarries, rfl, rfl, hcalls⟩
  | error fault => exact fun hcarries => ⟨hcarries, rfl, rfl, hcalls⟩

theorem Carries.waitUntil_listens (sc : Scenario) (step : String) (expect : ParcelExpectation)
    (timeout deadline look : Nat) (run : Run (Recorded σ)) (h : run.Carries p.recorded) :
    Listens p run (run.waitUntil sc step expect timeout deadline look).run := by
  fun_induction waitUntil sc step expect timeout deadline look run with
  | case1 look run collected reason hhalt =>
      have hcollect : Listens p run collected.run := h.collect_listens (some step)
      exact hcollect.trans (hcollect.carries.look_listens _)
  | case2 look run collected hhalt henough =>
      have hcollect : Listens p run collected.run := h.collect_listens (some step)
      exact hcollect.trans (hcollect.carries.look_listens _)
  | case3 look run collected hhalt hfew hlate =>
      have hcollect : Listens p run collected.run := h.collect_listens (some step)
      exact hcollect.trans (hcollect.carries.look_listens _)
  | case4 look run collected hhalt hfew hearly waited reason hstop =>
      have hcollect : Listens p run collected.run := h.collect_listens (some step)
      have hwait : Listens p collected.run waited.run := hcollect.carries.waitNext_listens ..
      exact hcollect.trans (hwait.trans (hwait.carries.look_listens _))
  | case5 look run collected hhalt hfew hearly waited hgo ih =>
      have hcollect : Listens p run collected.run := h.collect_listens (some step)
      have hwait : Listens p collected.run waited.run := hcollect.carries.waitNext_listens ..
      exact hcollect.trans (hwait.trans (ih hwait.carries))

theorem Carries.checkStream_listens (sc : Scenario) (h : run.Carries p.recorded) :
    Listens p run (run.checkStream sc).run := by
  unfold checkStream
  dsimp only
  split <;> exact h.idle_listens

/-! ## The deed of a step -/

/-- What a step that was carried out has done to the run before it. -/
structure Deed (p : Plugin σ) (ws : Workspace) (run : Run (Recorded σ))
    (e : CarriedOut (Recorded σ)) : Prop where
  carries : e.outcome.run.Carries p.recorded
  host : e.outcome.run.host
    = { run.host with files := ws.applyAll run.host e.step.directive.change?.toList }
  captures : e.outcome.run.captures = run.captures + if e.step.directive.isCapture then 1 else 0
  requests : e.outcome.run.bridge.state.requests
      = run.bridge.state.requests ++ (e.step.directive.request? ws).toList
    ∨ e.outcome.run.bridge.state.requests = run.bridge.state.requests ∧ e.outcome.halt ≠ none

/-- A step that only listens has done nothing else. -/
theorem Listens.deed {ws : Workspace} {e : CarriedOut (Recorded σ)}
    (h : Listens p run e.outcome.run) (hchange : e.step.directive.change? = none)
    (hrequest : e.step.directive.request? ws = none)
    (hcapture : e.step.directive.isCapture = false) : Deed p ws run e where
  carries := h.carries
  host := by rw [h.host, hchange]; rfl
  captures := by rw [h.captures, hcapture]; rfl
  requests := by
    left
    rw [h.requests, hrequest]
    exact (List.append_nil _).symm

theorem fixture_deed (sc : Scenario) (h : run.Carries p.recorded) (name : String) (index : Nat)
    (change : Fixture) :
    Deed p sc.workspace run
      ⟨⟨name, index, .fixture change⟩, carryOut sc run ⟨name, index, .fixture change⟩⟩ := by
  simp only [carryOut, Directive.phase, prepare]
  rcases happly : sc.workspace.apply run.host change with ⟨files, _ | fault⟩
  · refine ⟨⟨h.plugin, h.loaded⟩, ?_, rfl, .inl (List.append_nil _).symm⟩
    simp [Directive.change?, Workspace.applyAll, happly]
  · refine ⟨⟨h.plugin, h.loaded⟩, ?_, rfl, .inl (List.append_nil _).symm⟩
    simp [Directive.change?, Workspace.applyAll, happly]

theorem monitor_deed (sc : Scenario) (h : run.Carries p.recorded) (name : String) (index : Nat)
    (request : MonitorRequest) :
    Deed p sc.workspace run
      ⟨⟨name, index, .monitor request⟩, carryOut sc run ⟨name, index, .monitor request⟩⟩ := by
  have hcarries : ((prepare sc run ⟨name, index, .monitor request⟩).run).Carries p.recorded :=
    h.moves (prepare_reaches sc run _).moves
  have hrequests := Bridge.deliver_requests h.plugin run.host request.capability
    (requestJson sc.workspace request)
  revert hcarries
  simp only [carryOut, Directive.phase, prepare]
  generalize run.bridge.deliver run.host request.capability
    (requestJson sc.workspace request) = delivered at hrequests ⊢
  obtain ⟨fault | ⟨⟩, bridge⟩ := delivered
  · intro hcarries
    exact ⟨hcarries, rfl, rfl, hrequests.imp id fun hnone => ⟨hnone.1, by simp⟩⟩
  · intro hcarries
    refine ⟨hcarries, rfl, rfl, hrequests.imp id fun hasked => ?_⟩
    obtain ⟨_, _, hfault⟩ := hasked
    cases hfault

theorem fileState_deed (sc : Scenario) (h : run.Carries p.recorded) (name : String) (index : Nat)
    (path : Path) (expect : AttributeExpectations) :
    Deed p sc.workspace run
      ⟨⟨name, index, .fileState path expect⟩,
        carryOut sc run ⟨name, index, .fileState path expect⟩⟩ := by
  have hrun := (checkState_looks sc name path expect run).run_eq
  simp only [carryOut, Directive.phase, assert]
  refine ⟨?_, ?_, ?_, .inl ?_⟩
  · rw [hrun]
    exact ⟨h.plugin, h.loaded⟩
  · rw [hrun]
    rfl
  · rw [hrun]
    rfl
  · rw [hrun]
    exact (List.append_nil _).symm

/-- **Steps.** Each step does what its directive says, and no more. -/
theorem carryOut_deed (sc : Scenario) (h : run.Carries p.recorded) (step : Step) :
    Deed p sc.workspace run ⟨step, carryOut sc run step⟩ := by
  obtain ⟨name, index, directive⟩ := step
  cases directive with
  | fixture change => exact fixture_deed sc h name index change
  | monitor request => exact monitor_deed sc h name index request
  | await wait => exact Listens.deed (h.waitUntil_listens sc name wait.expect ..) rfl rfl rfl
  | presence path present =>
      have hrun := (checkPresence_looks sc name path present run).run_eq
      have hlistens : Listens p run (run.checkPresence sc name path present).run := by
        rw [hrun]
        exact ⟨h, rfl, rfl, rfl⟩
      exact Listens.deed hlistens rfl rfl rfl
  | fileState path expect => exact fileState_deed sc h name index path expect

/-! ## The tally of a run -/

/-- What a run has done since it began, told by the steps it has carried
out. -/
structure Tally (p : Plugin σ) (ws : Workspace) (start run : Run (Recorded σ))
    (done : List (CarriedOut (Recorded σ))) : Prop where
  carries : run.Carries p.recorded
  host : run.host = { start.host with
    files := ws.applyAll start.host (done.filterMap (·.step.directive.change?)) }
  captures : run.captures = start.captures + done.countP (·.step.directive.isCapture)
  /-- Every step that went well has handed over its request. -/
  delivered : start.bridge.state.requests
      ++ (done.filter (·.succeeded)).filterMap (·.step.directive.request? ws)
    <+: run.bridge.state.requests
  /-- No request was handed over but those of the steps. -/
  asked : run.bridge.state.requests
    <+: start.bridge.state.requests ++ done.filterMap (·.step.directive.request? ws)

theorem Carries.tally (h : run.Carries p.recorded) (ws : Workspace) : Tally p ws run run [] where
  carries := h
  host := rfl
  captures := rfl
  delivered := by simp
  asked := by simp

variable {ws : Workspace} {start : Run (Recorded σ)} {done : List (CarriedOut (Recorded σ))}

theorem Tally.listens (ht : Tally p ws start run done) (h : Listens p run run') :
    Tally p ws start run' done where
  carries := h.carries
  host := h.host.trans ht.host
  captures := h.captures.trans ht.captures
  delivered := h.requests ▸ ht.delivered
  asked := h.requests ▸ ht.asked

/-- As long as every step went well there is a request for each. -/
theorem Tally.requests (ht : Tally p ws start run done)
    (hdone : ∀ e ∈ done, e.outcome.halt = none) :
    run.bridge.state.requests
      = start.bridge.state.requests ++ done.filterMap (·.step.directive.request? ws) := by
  have hall : done.filter (·.succeeded) = done :=
    List.filter_eq_self.mpr fun e he => CarriedOut.succeeded_iff.mpr (hdone e he)
  have hdelivered := ht.delivered
  rw [hall] at hdelivered
  exact ht.asked.eq_of_length_le hdelivered.length_le

/-- The deed of another step comes to the tally. -/
theorem Tally.concat (ht : Tally p ws start run done)
    (hdone : ∀ e ∈ done, e.outcome.halt = none) {e : CarriedOut (Recorded σ)}
    (hd : Deed p ws run e) : Tally p ws start e.outcome.run (done ++ [e]) where
  carries := hd.carries
  host := by
    have hchanges : (done ++ [e]).filterMap (·.step.directive.change?)
        = done.filterMap (·.step.directive.change?) ++ e.step.directive.change?.toList := by
      rw [List.filterMap_append]
      cases hchange : e.step.directive.change? <;> simp [hchange]
    rw [hd.host, ht.host, hchanges, Workspace.applyAll_append]
  captures := by
    rw [hd.captures, ht.captures, List.countP_append, List.countP_singleton, Nat.add_assoc]
  delivered := by
    rw [List.filter_append, List.filterMap_append, ← List.append_assoc]
    have hrequests := ht.requests hdone
    have hall : done.filter (·.succeeded) = done :=
      List.filter_eq_self.mpr fun e he => CarriedOut.succeeded_iff.mpr (hdone e he)
    rw [hall, ← hrequests]
    rcases hd.requests with heq | ⟨heq, hhalt⟩
    · rw [heq]
      refine (List.prefix_append_right_inj _).mpr ?_
      cases hs : e.succeeded <;> cases hrequest : e.step.directive.request? ws <;>
        simp [hs, hrequest]
    · have hfailed : e.succeeded = false := by
        rw [Bool.eq_false_iff]
        exact fun hs => hhalt (CarriedOut.succeeded_iff.mp hs)
      simp [heq, hfailed]
  asked := by
    have hrequests := ht.requests hdone
    rw [List.filterMap_append, ← List.append_assoc, ← hrequests]
    rcases hd.requests with heq | ⟨heq, -⟩
    · rw [heq]
      refine (List.prefix_append_right_inj _).mpr ?_
      cases hrequest : e.step.directive.request? ws <;> simp [hrequest]
    · rw [heq]
      exact List.prefix_append _ _

/-- **Runs.** What a run has done is what its steps have done. -/
theorem execute_tally (sc : Scenario) (h : run.Carries p.recorded) :
    Tally p sc.workspace run (execute sc run).run (executed sc run) := by
  refine executed_induction sc run (Tally p sc.workspace run) ?_ ?_ ?_ ?_
    (h.tally sc.workspace)
  · intro run' done step hdone ht
    exact ht.concat hdone (carryOut_deed sc ht.carries step)
  · intro run' done phase ht
    exact ht.listens (ht.carries.enter_listens phase)
  · intro run' done ht
    exact ht.listens (ht.carries.collect_listens none)
  · intro run' done ht
    exact ht.listens (ht.carries.checkStream_listens sc)

/-- The trigger stops no run, so nothing keeps the steps that assert from
being carried out. -/
theorem executed_all (sc : Scenario) (h : run.Carries p.recorded)
    (hall : ∀ e ∈ executed sc run, e.outcome.halt = none) :
    (executed sc run).map (·.step) = sc.script.stepsIn .before ++ sc.script.stepsIn .after := by
  rcases executed_cases sc run with ⟨before, last, heq, -, hlast, -⟩ | ⟨-, hsteps⟩
  · have hmem : last ∈ executed sc run := by simp [heq]
    exact absurd (hall last hmem) hlast
  · refine hsteps ?_
    have hbefore := trail_induction (fun run _ => run.Carries p.recorded)
      (fun run done step _ hc => (carryOut_deed sc hc step).carries)
      (sc.script.stepsIn .before) (run.enter .before) [] (by simp) (h.enter .before)
    rcases trail_cases sc (sc.script.stepsIn .before) (run.enter .before) with
      ⟨hgo, -, -⟩ | ⟨before, last, htrail, -, hlast, -⟩
    · rw [triggered, Progress.andThen_of_goesOn hgo, collect_of_loaded]
      · rfl
      · exact (hbefore.enter .trigger).idle.loaded
    · have hmem : last ∈ executed sc run := by simp [executed, htrail]
      exact absurd (hall last hmem) hlast

end Run

end Conformance
