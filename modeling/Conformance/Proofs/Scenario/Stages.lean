import Conformance.Proofs.Bridge.Delivery
import Conformance.Proofs.Channel.Accounting
import Conformance.Proofs.Scenario.Progress

/-!
# Scenarios without channel and clock

What a scenario comes to can be said without queues, counters, waits and
phases: there is a host with its files, a plugin with its state, and all
that the plugin has emitted so far. `Prepares` and `Holds` are the steps
of a script as such a stage sees them. For a plugin that emits only while
it is called, a run goes on after a step exactly when the stage allows it
(`prepare_realizes`, `assert_realizes`).

Up to the trigger the channel has taken all that was emitted
(`Gathers`). From then on it is empty, and what it had held is what was
observed (`Watches`): a wait that finds too few parcels at its first look
finds no more at any later one, so it is the deadline that ends it.
-/

namespace Conformance

variable {σ : Type}

/-- The plugin emits only while one of its entry points runs. -/
def Plugin.Quiet (p : Plugin σ) : Prop := ∀ s h bound, (p.background s h bound).1 = []

/-- What a scenario has come to: the host with its files, the state of
the plugin, and all that the plugin has emitted. -/
structure Stage (σ : Type) where
  host : Host
  state : σ
  emitted : List Emission

namespace Stage

/-- The stage after a call of the plugin. -/
def after {α : Type} (st : Stage σ) (reply : Reply σ α) : Stage σ :=
  { st with state := reply.state, emitted := st.emitted ++ reply.emissions }

/-- The stage after the plugin's threads got to run. -/
def settle (p : Plugin σ) (st : Stage σ) : Stage σ :=
  { st with state := (p.background st.state st.host 0).2 }

/-- The plugin's answer when it is asked for its descriptor. -/
def status (p : Plugin σ) (st : Stage σ) : Reply σ Descriptor := p.status st.state st.host

end Stage

/-- A step that prepares succeeds. -/
inductive Prepares (ws : Workspace) (p : Plugin σ) (st : Stage σ) : Step → Stage σ → Prop
  | fixture {name index change files} (happly : ws.apply st.host change = (files, none)) :
    Prepares ws p st ⟨name, index, .fixture change⟩
      { st with host := { st.host with files } }
  | monitor {name index request d handler reply} (hstatus : (st.status p).outcome = .done d)
    (hroute : Bridge.route d request.capability (Run.requestJson ws request) = .ok handler)
    (hreply : p.deliver (st.status p).state st.host handler (Run.requestJson ws request) = reply)
    (hdone : reply.outcome = .done ()) :
    Prepares ws p st ⟨name, index, .monitor request⟩ ((st.after (st.status p)).after reply)

/-- A step that asserts holds, where these parcels were observed. -/
inductive Holds (ws : Workspace) (ps : Placeholders) (p : Plugin σ) (observed : List Parcel)
    (st : Stage σ) : Step → Stage σ → Prop
  | await {name index wait}
    (henough : wait.expect.count ≤ observed.countP (wait.expect.accepts ps)) :
    Holds ws ps p observed st ⟨name, index, .await wait⟩ (st.settle p)
  | present {name index path status}
    (hstatus : st.host.status false (ws.resolve path) = .ok status) :
    Holds ws ps p observed st ⟨name, index, .presence path true⟩ st
  | absent {name index path fault}
    (hstatus : st.host.status false (ws.resolve path) = .error fault)
    (hmissing : fault.isNotFound = true) :
    Holds ws ps p observed st ⟨name, index, .presence path false⟩ st
  | fileState {name index path expect snapshot}
    (hcapture : st.host.capture (ws.resolve path) expect.kinds = .ok snapshot)
    (hverify : expect.verify snapshot = none) :
    Holds ws ps p observed st ⟨name, index, .fileState path expect⟩ st

/-! ## Runs that answer for a stage -/

/-- The run has the host, the plugin and its state. -/
structure Tracks (p : Plugin σ) (run : Run σ) (st : Stage σ) : Prop where
  host : run.host = st.host
  plugin : run.bridge.plugin = p
  loaded : run.bridge.loaded = true
  state : run.bridge.state = st.state

/-- Nothing was taken out of the channel yet. -/
structure Gathers (p : Plugin σ) (capacity : Nat) (run : Run σ) (st : Stage σ) : Prop
    extends Tracks p run st where
  channel : run.bridge.channel = (Channel.bounded capacity).takeAll st.emitted
  observed : run.observed = []

/-- What a channel held was observed, and nothing came after it. -/
structure Watches (p : Plugin σ) (c : Channel) (run : Run σ) (st : Stage σ) : Prop
    extends Tracks p run st where
  queue : run.bridge.channel.queue = []
  stats : run.bridge.channel.stats = c.stats
  observed : run.observed = c.queue

theorem idle_of_quiet {p : Plugin σ} (hquiet : p.Quiet) {b : Bridge σ} (hp : b.plugin = p)
    (hb : b.loaded = true) (h : Host) (bound : Nat) :
    b.idle h bound = { b with state := (p.background b.state h bound).2 } := by
  obtain ⟨plugin, s, loaded, d, c⟩ := b
  obtain rfl : plugin = p := hp
  obtain rfl : loaded = true := hb
  simp [Bridge.idle, hquiet s h bound, Channel.takeAll]

namespace Run

variable {p : Plugin σ} {run : Run σ} {st : Stage σ}

theorem idle_tracks (hquiet : p.Quiet) (h : Tracks p run st) :
    Tracks p run.idle (st.settle p) ∧ run.idle.bridge.channel = run.bridge.channel := by
  have hidle := idle_of_quiet hquiet h.plugin h.loaded run.host 0
  refine ⟨⟨h.host, ?_, ?_, ?_⟩, ?_⟩
  · simpa only [idle, hidle] using h.plugin
  · simpa only [idle, hidle] using h.loaded
  · simp only [idle, hidle, Stage.settle]
    rw [h.state, h.host]
  · simp only [idle, hidle]

theorem idle_watches (hquiet : p.Quiet) {c : Channel} (h : Watches p c run st) :
    Watches p c run.idle (st.settle p) := by
  obtain ⟨htracks, hchannel⟩ := idle_tracks hquiet h.toTracks
  exact ⟨htracks, by rw [hchannel, h.queue], by rw [hchannel, h.stats], h.observed⟩

theorem collect_of_loaded (hb : run.idle.bridge.loaded = true) (step : Option String) :
    run.collect step = Run.goesOn { run.idle with
      bridge := { run.idle.bridge with channel := run.idle.bridge.channel.drain.2 }
      observed := run.idle.observed ++ run.idle.bridge.channel.queue } := by
  simp [collect, Bridge.drain, hb, Channel.drain]

/-- The collection at the trigger observes all that the channel holds. -/
theorem collect_gathers (hquiet : p.Quiet) {capacity : Nat} (h : Gathers p capacity run st)
    (step : Option String) :
    Progress.Realizes (Watches p ((Channel.bounded capacity).takeAll st.emitted))
      (run.collect step) (· = st.settle p) := by
  obtain ⟨htracks, hchannel⟩ := idle_tracks hquiet h.toTracks
  rw [collect_of_loaded htracks.loaded]
  refine Progress.realizes_goesOn ⟨?_, rfl, ?_, ?_⟩
  · exact ⟨htracks.host, htracks.plugin, htracks.loaded, htracks.state⟩
  · simp only [Channel.drain, hchannel, h.channel]
  · simp only [idle, h.observed, List.nil_append]
    rw [show (run.bridge.idle run.host 0).channel = run.bridge.channel from hchannel, h.channel]

theorem collect_watches (hquiet : p.Quiet) {c : Channel} (h : Watches p c run st)
    (step : Option String) :
    Progress.Realizes (Watches p c) (run.collect step) (· = st.settle p) := by
  have hidle := idle_watches hquiet h
  rw [collect_of_loaded hidle.loaded]
  refine Progress.realizes_goesOn ⟨?_, rfl, hidle.stats, ?_⟩
  · exact ⟨hidle.host, hidle.plugin, hidle.loaded, hidle.state⟩
  · simp only [hidle.queue, List.append_nil]
    exact hidle.observed

/-! ## Waits -/

/-- Between two looks of a wait nothing arrives either. -/
theorem waitNext_watches (hquiet : p.Quiet) {c : Channel} (h : Watches p c run st)
    (step : String) (bound : Nat) :
    ∃ st', (run.waitNext step bound).halt = none
      ∧ Watches p c (run.waitNext step bound).run st' := by
  have hidle := idle_of_quiet hquiet h.plugin h.loaded run.host bound
  have hqueue := h.queue
  refine ⟨{ st with state := (p.background run.bridge.state run.host bound).2 }, ?_⟩
  simp only [waitNext, Bridge.waitNext, h.loaded, hqueue, hidle, Channel.next,
    Bool.not_true, Bool.false_eq_true, if_false, List.isEmpty_nil, if_true, goesOn_halt,
    goesOn_run, Option.toList_none, List.append_nil, true_and]
  exact ⟨⟨h.host, h.plugin, rfl, rfl⟩, hqueue, h.stats, h.observed⟩

/-- A wait that finds too few parcels never ends well. -/
theorem waitUntil_halts (hquiet : p.Quiet) {c : Channel} (sc : Scenario) (step : String)
    (expect : ParcelExpectation) (timeout deadline look : Nat) (run : Run σ) (st : Stage σ)
    (h : Watches p c run st)
    (hfew : ¬ expect.count ≤ c.queue.countP (expect.accepts sc.placeholders)) :
    (run.waitUntil sc step expect timeout deadline look).halt ≠ none := by
  fun_induction waitUntil sc step expect timeout deadline look run generalizing st with
  | case1 look run collected reason hhalt => simp [hhalt]
  | case2 look run collected hhalt henough =>
      have hcollect := (collect_watches hquiet h (some step)).2 _ rfl
      rw [hits, hcollect.2.observed] at henough
      exact absurd henough hfew
  | case3 look run collected hhalt _ hlate => simp
  | case4 look run collected hhalt _ hearly waited reason hstop => simp [hstop]
  | case5 look run collected hhalt _ hearly waited hgo ih =>
      have hcollect := (collect_watches hquiet h (some step)).2 _ rfl
      obtain ⟨st', -, hwaited⟩ := waitNext_watches hquiet hcollect.2 step
        (min sc.config.pause (deadline - sc.clock.reading look))
      exact ih st' hwaited

/-- **Waits.** Nothing arrives during a wait, so it succeeds exactly when
enough parcels were observed before. -/
theorem waitFor_realizes (hquiet : p.Quiet) {c : Channel} (h : Watches p c run st)
    (sc : Scenario) (step : String) (expect : ParcelExpectation) (timeout : Nat) :
    Progress.Realizes (Watches p c) (run.waitFor sc step expect timeout) fun st' =>
      st' = st.settle p ∧ expect.count ≤ c.queue.countP (expect.accepts sc.placeholders) := by
  unfold waitFor
  by_cases henough : expect.count ≤ c.queue.countP (expect.accepts sc.placeholders)
  · have hcollect := (collect_watches hquiet h (some step)).2 _ rfl
    have hhits : expect.count ≤ hits sc expect (run.collect (some step)).run := by
      rw [hits, hcollect.2.observed]
      exact henough
    rw [waitUntil]
    simp only [hcollect.1, hhits, if_true]
    refine (Progress.realizes_goesOn (R := Watches p c) (a := st.settle p) ?_).congr
      fun st' => (and_iff_left henough).symm
    exact ⟨⟨hcollect.2.host, hcollect.2.plugin, hcollect.2.loaded, hcollect.2.state⟩,
      hcollect.2.queue, hcollect.2.stats, hcollect.2.observed⟩
  · refine Progress.realizes_of_halt ?_ fun st' hst => henough hst.2
    exact waitUntil_halts hquiet sc step expect timeout _ _ run st h henough

/-! ## Steps -/

/-- **Preparation.** A step that prepares goes well in the run exactly
when it does at the stage. -/
theorem prepare_realizes {sc : Scenario} {capacity : Nat} (h : Gathers p capacity run st)
    {step : Step} (hphase : step.directive.phase = .before) :
    Progress.Realizes (Gathers p capacity) (prepare sc run step)
      (Prepares sc.workspace p st step) := by
  obtain ⟨name, index, directive⟩ := step
  cases directive with
  | fixture change =>
      simp only [prepare, h.host]
      rcases happly : sc.workspace.apply st.host change with ⟨files, _ | fault⟩
      · refine (Progress.realizes_goesOn (R := Gathers p capacity)
          (a := { st with host := { st.host with files } }) ?_).congr fun st' => ?_
        · exact ⟨⟨rfl, h.plugin, h.loaded, h.state⟩, h.channel, h.observed⟩
        · constructor
          · rintro rfl
            exact .fixture happly
          · rintro ⟨happly'⟩
            rw [happly] at happly'
            cases happly'
            rfl
      · refine Progress.realizes_of_halt (by simp) ?_
        rintro st' ⟨happly'⟩
        rw [happly] at happly'
        cases happly'
  | monitor request =>
      have hdel : ∀ b', run.bridge.deliver st.host request.capability
          (requestJson sc.workspace request) = (.ok (), b') ↔ _ :=
        fun b' => Bridge.deliver_ok_iff h.loaded
      simp only [prepare, h.host]
      simp only [h.plugin, h.state] at hdel
      rcases hdeliver : run.bridge.deliver st.host request.capability
        (requestJson sc.workspace request) with ⟨fault | ⟨⟩, bridge⟩
      · refine Progress.realizes_of_halt (by simp) ?_
        rintro st' (_ | ⟨hstatus, hroute, rfl, hdone⟩)
        have hok := (hdel _).mpr ⟨_, _, hstatus, hroute, hdone, rfl⟩
        rw [hdeliver] at hok
        cases hok
      · obtain ⟨d, handler, hstatus, hroute, hdone, rfl⟩ := (hdel bridge).mp hdeliver
        refine (Progress.realizes_goesOn (R := Gathers p capacity)
          (a := (st.after (st.status p)).after (p.deliver (st.status p).state st.host handler
            (requestJson sc.workspace request))) ?_).congr fun st' => ?_
        · refine ⟨⟨rfl, h.plugin, h.loaded, rfl⟩, ?_, h.observed⟩
          simp only [Bridge.after, Stage.after, h.channel, Channel.takeAll_append]
          rfl
        · constructor
          · rintro rfl
            exact .monitor hstatus hroute rfl hdone
          · rintro (_ | ⟨hstatus', hroute', rfl, -⟩)
            rw [show (st.status p).outcome = _ from hstatus] at hstatus'
            cases hstatus'
            rw [hroute] at hroute'
            cases hroute'
            rfl
  | await _ | presence _ _ | fileState _ _ => cases hphase

theorem isPresent_eq_true {h : Host} {path : Path} :
    isPresent h path = .ok true ↔ ∃ status, h.status false path = .ok status := by
  unfold isPresent
  cases h.status false path with
  | ok status => simp
  | error fault => cases hmissing : fault.isNotFound <;> simp [hmissing]

/-- Only a file that is not there is known to be absent. -/
theorem isPresent_eq_false {h : Host} {path : Path} : isPresent h path = .ok false
    ↔ ∃ fault, h.status false path = .error fault ∧ fault.isNotFound = true := by
  unfold isPresent
  cases h.status false path with
  | ok status => simp
  | error fault => cases hmissing : fault.isNotFound <;> simp [hmissing]

theorem checkPresence_realizes {sc : Scenario} {c : Channel} (h : Watches p c run st)
    (step : String) (path : Path) (wanted : Bool) :
    Progress.Realizes (Watches p c) (run.checkPresence sc step path wanted) fun st' =>
      st' = st ∧ isPresent st.host (sc.workspace.resolve path) = .ok wanted := by
  simp only [checkPresence, h.host]
  cases hpresent : isPresent st.host (sc.workspace.resolve path) with
  | error fault => exact Progress.realizes_of_halt (by simp) (by simp)
  | ok present =>
      by_cases hw : present = wanted
      · simp only [hw, if_true, and_true]
        exact Progress.realizes_goesOn h
      · exact Progress.realizes_of_halt (by simp [hw]) (by simp [hw])

theorem checkState_realizes {sc : Scenario} {c : Channel} (h : Watches p c run st)
    (step : String) (path : Path) (expect : AttributeExpectations) :
    Progress.Realizes (Watches p c) (run.checkState sc step path expect) fun st' =>
      st' = st ∧ ∃ snapshot, st.host.capture (sc.workspace.resolve path) expect.kinds
        = .ok snapshot ∧ expect.verify snapshot = none := by
  simp only [checkState, h.host]
  cases hcapture : st.host.capture (sc.workspace.resolve path) expect.kinds with
  | error stop =>
      refine Progress.realizes_of_halt ?_ (by simp)
      cases stop with
      | fault fault =>
          dsimp only
          split <;> simp
      | overflow kind => simp
  | ok snapshot =>
      cases hverify : expect.verify snapshot with
      | some m => exact Progress.realizes_of_halt (by simp [hverify]) (by simp [hverify])
      | none =>
          simp only [Except.ok.injEq, exists_eq_left', hverify, and_true]
          exact Progress.realizes_goesOn
            ⟨⟨rfl, h.plugin, h.loaded, h.state⟩, h.queue, h.stats, h.observed⟩

/-- **Assertions.** A step that asserts holds in the run exactly when it
does at the stage. -/
theorem assert_realizes (hquiet : p.Quiet) {sc : Scenario} {c : Channel}
    (h : Watches p c run st) {step : Step} (hphase : step.directive.phase = .after) :
    Progress.Realizes (Watches p c) (assert sc run step)
      (Holds sc.workspace sc.placeholders p c.queue st step) := by
  obtain ⟨name, index, directive⟩ := step
  cases directive with
  | await wait =>
      refine (waitFor_realizes hquiet h sc name wait.expect (timeoutOf sc wait)).congr
        fun st' => ⟨?_, ?_⟩
      · rintro ⟨rfl, henough⟩
        exact .await henough
      · rintro ⟨henough⟩
        exact ⟨rfl, henough⟩
  | presence path present =>
      refine (checkPresence_realizes h name path present).congr fun st' => ⟨?_, ?_⟩
      · rintro ⟨rfl, hpresent⟩
        cases present with
        | true =>
            obtain ⟨status, hstatus⟩ := isPresent_eq_true.mp hpresent
            exact .present hstatus
        | false =>
            obtain ⟨fault, hstatus, hmissing⟩ := isPresent_eq_false.mp hpresent
            exact .absent hstatus hmissing
      · intro hholds
        cases hholds with
        | present hstatus => exact ⟨rfl, isPresent_eq_true.mpr ⟨_, hstatus⟩⟩
        | absent hstatus hmissing => exact ⟨rfl, isPresent_eq_false.mpr ⟨_, hstatus, hmissing⟩⟩
  | fileState path expect =>
      refine (checkState_realizes h name path expect).congr fun st' => ⟨?_, ?_⟩
      · rintro ⟨rfl, snapshot, hcapture, hverify⟩
        exact .fileState hcapture hverify
      · intro hholds
        cases hholds with
        | fileState hcapture hverify => exact ⟨rfl, _, hcapture, hverify⟩
  | fixture _ | monitor _ => cases hphase

end Run

end Conformance
