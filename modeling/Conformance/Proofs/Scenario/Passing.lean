import Mathlib
import Conformance.Plugin.Rehearsed
import Conformance.Proofs.Scenario.Counters
import Conformance.Proofs.Scenario.Stages
import Conformance.Proofs.Stream.Validity

/-!
# What a passing scenario has shown

A scenario whose plugin emits only while it is called passes exactly when
everything in it holds (`passed_iff`). Everything is a `Course`: the
workspace was created, the plugin started, each step that prepares
succeeded and each that asserts held when it was reached, all that the
plugin emitted up to then were parcels, no more of them than the channel
has room for, their sequences rise and their groups end, and the plugin
stopped. There is no queue, no counter and no clock in it.

The run realizes the course part by part. The parts of the run up to the
trigger gather what is emitted, the trigger empties the channel, and what
was in it stays what the run has observed.
-/

namespace Conformance

variable {σ : Type}

/-- A course that a scenario can take in which everything holds. The
steps that prepare come to the stage `prepared`, those that assert to
`asserted`. -/
structure Course (hn : Harness σ) (script : Script) (p : Plugin σ) (s : σ) where
  files : FileSystem
  ws : Workspace
  created : Workspace.create hn.host.files hn.root = .ok (files, ws)
  start : Reply σ Descriptor
  start_eq : p.start s { hn.host with files } hn.config.settings = start
  descriptor : Descriptor
  started : start.outcome = .done descriptor
  prepared : Stage σ
  prepares : Steps (Prepares ws p) ⟨{ hn.host with files }, start.state, start.emissions⟩
    (script.stepsIn .before) prepared
  parcels : List Parcel
  emitted : prepared.emitted = parcels.map .parcel
  room : parcels.length ≤ max hn.config.captureCapacity 1
  asserted : Stage σ
  holds : Steps (Holds ws ⟨descriptor.name, Path.text ws.root⟩ p parcels) (prepared.settle p)
    (script.stepsIn .after) asserted
  rise : SendersRise parcels
  groupsEnd : GroupsEnd parcels
  /-- Threads of the plugin get to run at the last collection, at the
  check of all parcels, and before the stop. -/
  stopped : (p.stop (((asserted.settle p).settle p).settle p).state asserted.host).outcome
    = .done ()

/-! ## The check of all parcels -/

/-- Nothing is wrong with a stream exactly when nothing was lost, nothing
was turned away, and the validator finds nothing. -/
theorem Run.streamFailure?_eq_none {config : Config} {stats : ChannelStats}
    {observed : List Parcel} :
    Run.streamFailure? config stats observed = none
      ↔ (stats.dropped = 0 ∧ stats.malformed = 0) ∧ StreamValidator.validate observed = [] := by
  unfold Run.streamFailure?
  split
  · rename_i hdropped
    simp only [reduceCtorEq, false_iff]
    omega
  · split
    · rename_i hmalformed
      simp only [reduceCtorEq, false_iff]
      omega
    · rename_i hdropped hmalformed
      have hzero : stats.dropped = 0 ∧ stats.malformed = 0 := by omega
      simp [hzero]

/-- What the check of a channel's parcels asks for: there are only
parcels, all of them found room, and they are in order. -/
theorem channel_sound_iff (capacity : Nat) (es : List Emission) :
    let c := (Channel.bounded capacity).takeAll es
    ((c.stats.dropped = 0 ∧ c.stats.malformed = 0) ∧ StreamValidator.validate c.queue = []
      ↔ ∃ ps : List Parcel, es = ps.map .parcel ∧ ps.length ≤ max capacity 1
          ∧ c.queue = ps ∧ SendersRise ps ∧ GroupsEnd ps) := by
  intro c
  have hlossless : c.stats.dropped = 0 ∧ c.stats.malformed = 0 ↔ _ :=
    Channel.bounded_lossless_iff capacity es
  rw [hlossless]
  constructor
  · rintro ⟨⟨ps, rfl, hroom⟩, hvalid⟩
    have hqueue : c.queue = ps := Channel.bounded_queue_of_room hroom
    rw [hqueue, StreamValidator.validate_eq_nil_iff_pairwise] at hvalid
    exact ⟨ps, rfl, hroom, hqueue, rise_and_end_iff_pairwise.mpr hvalid⟩
  · rintro ⟨ps, rfl, hroom, hqueue, hordered⟩
    refine ⟨⟨ps, rfl, hroom⟩, ?_⟩
    rw [hqueue, StreamValidator.validate_eq_nil_iff_pairwise]
    exact rise_and_end_iff_pairwise.mp hordered

namespace Run

variable {p : Plugin σ} {run : Run σ} {st : Stage σ}

theorem checkStream_realizes (hquiet : p.Quiet) (sc : Scenario) {c : Channel}
    (h : Watches p c run st) :
    Progress.Realizes (Watches p c) (run.checkStream sc) fun st' =>
      st' = st.settle p
        ∧ (c.stats.dropped = 0 ∧ c.stats.malformed = 0)
        ∧ StreamValidator.validate c.queue = [] := by
  have hidle := idle_watches hquiet h
  have hsound : streamFailure? sc.config c.stats c.queue = none ↔ _ := streamFailure?_eq_none
  unfold checkStream
  simp only [hidle.observed, show run.idle.bridge.stats = c.stats from hidle.stats]
  cases hfailure : streamFailure? sc.config c.stats c.queue with
  | some failure =>
      refine Progress.realizes_of_halt (by simp) ?_
      rintro st' ⟨-, hall⟩
      rw [hsound.mpr hall] at hfailure
      cases hfailure
  | none =>
      exact (Progress.realizes_goesOn hidle).congr fun st' =>
        (and_iff_left (hsound.mp hfailure)).symm

/-! ## The whole run -/

/-- What holds at the end of a run that went well. -/
structure Finishes (p : Plugin σ) (run : Run σ) (st : Stage σ) : Prop
    extends Tracks p run st where
  queue : run.bridge.channel.queue = []
  dropped : run.bridge.channel.stats.dropped = 0
  malformed : run.bridge.channel.stats.malformed = 0

theorem enter_gathers {capacity : Nat} (h : Gathers p capacity run st) (phase : Phase) :
    Gathers p capacity (run.enter phase) st :=
  ⟨⟨h.host, h.plugin, h.loaded, h.state⟩, h.channel, h.observed⟩

theorem enter_watches {c : Channel} (h : Watches p c run st) (phase : Phase) :
    Watches p c (run.enter phase) st :=
  ⟨⟨h.host, h.plugin, h.loaded, h.state⟩, h.queue, h.stats, h.observed⟩

/-- The end of a run: the last collection, and the check of all parcels. -/
theorem check_realizes (hquiet : p.Quiet) (sc : Scenario) {c : Channel}
    (h : Watches p c run st) :
    Progress.Realizes (Finishes p)
      ((run.collect none).andThen fun run => (run.checkStream sc).andThen fun run =>
        (run.enter .done).goesOn)
      fun last => last = (st.settle p).settle p
        ∧ (c.stats.dropped = 0 ∧ c.stats.malformed = 0)
        ∧ StreamValidator.validate c.queue = [] := by
  have hcheck : ∀ run st, Watches p c run st →
      Progress.Realizes (Finishes p)
        ((run.checkStream sc).andThen fun run => (run.enter .done).goesOn) fun last => ∃ st',
          (st' = st.settle p ∧ (c.stats.dropped = 0 ∧ c.stats.malformed = 0)
            ∧ StreamValidator.validate c.queue = [])
          ∧ last = st' := by
    intro run st hw
    refine Progress.realizes_andThen (checkStream_realizes hquiet sc hw) ?_
    rintro run st hw ⟨-, ⟨hdropped, hmalformed⟩, -⟩
    have hend := enter_watches hw .done
    refine Progress.realizes_goesOn ⟨hend.toTracks, hend.queue, ?_, ?_⟩
    · rw [hend.stats, hdropped]
    · rw [hend.stats, hmalformed]
  refine (Progress.realizes_andThen (collect_watches hquiet h none)
    fun run st hw _ => hcheck run st hw).congr fun last => ?_
  constructor
  · rintro ⟨_, rfl, _, ⟨rfl, hsound⟩, rfl⟩
    exact ⟨rfl, hsound⟩
  · rintro ⟨rfl, hsound⟩
    exact ⟨_, rfl, _, ⟨rfl, hsound⟩, rfl⟩

/-- What comes after the trigger: the steps that assert, and the end. -/
theorem watch_realizes (hquiet : p.Quiet) (sc : Scenario) {c : Channel}
    (h : Watches p c run st) :
    Progress.Realizes (Finishes p)
      ((each (assert sc) (run.enter .after) (sc.script.stepsIn .after)).andThen fun run =>
        (run.collect none).andThen fun run => (run.checkStream sc).andThen fun run =>
          (run.enter .done).goesOn)
      fun last => ∃ asserted,
        Steps (Holds sc.workspace sc.placeholders p c.queue) st (sc.script.stepsIn .after)
            asserted
          ∧ last = (asserted.settle p).settle p
          ∧ (c.stats.dropped = 0 ∧ c.stats.malformed = 0)
          ∧ StreamValidator.validate c.queue = [] := by
  have hassert : ∀ step ∈ sc.script.stepsIn .after, ∀ run st, Watches p c run st →
      Progress.Realizes (Watches p c) (assert sc run step)
        (Holds sc.workspace sc.placeholders p c.queue st step) := fun _ hmem _ _ hw =>
    assert_realizes hquiet hw (mem_stepsIn hmem)
  have hafter := Progress.realizes_each _ hassert (enter_watches h .after)
  exact Progress.realizes_andThen hafter fun run asserted hw _ => check_realizes hquiet sc hw

/-- **The run.** It goes well exactly when its steps prepare and hold and
the channel has lost nothing of a stream in order. -/
theorem execute_realizes (hquiet : p.Quiet) {sc : Scenario} {capacity : Nat}
    (h : Gathers p capacity run st) :
    Progress.Realizes (Finishes p) (execute sc run) fun last => ∃ prepared,
      Steps (Prepares sc.workspace p) st (sc.script.stepsIn .before) prepared ∧
      let c := (Channel.bounded capacity).takeAll prepared.emitted
      ∃ asserted, Steps (Holds sc.workspace sc.placeholders p c.queue) (prepared.settle p)
          (sc.script.stepsIn .after) asserted
        ∧ last = (asserted.settle p).settle p
        ∧ (c.stats.dropped = 0 ∧ c.stats.malformed = 0)
        ∧ StreamValidator.validate c.queue = [] := by
  unfold execute
  have hprepare : ∀ step ∈ sc.script.stepsIn .before, ∀ run st, Gathers p capacity run st →
      Progress.Realizes (Gathers p capacity) (prepare sc run step)
        (Prepares sc.workspace p st step) := fun _ hmem _ _ hg =>
    prepare_realizes hg (mem_stepsIn hmem)
  have hbefore := Progress.realizes_each _ hprepare (enter_gathers h .before)
  refine Progress.realizes_andThen hbefore fun run prepared hprepared _ => ?_
  have htrigger := collect_gathers hquiet (enter_gathers hprepared .trigger) none
  refine (Progress.realizes_andThen htrigger fun run st hw _ =>
    watch_realizes hquiet sc hw).congr fun last => ⟨?_, fun h => ⟨_, rfl, h⟩⟩
  rintro ⟨_, rfl, h⟩
  exact h

end Run

/-! ## The report -/

namespace Harness

/-- A report says passed exactly when no part stopped the run and the
plugin stopped well. -/
theorem verdictOf_eq_passed {halt : Option Halt} {stopped : Except BridgeFault Unit} :
    verdictOf halt stopped = .passed ↔ halt = none ∧ stopped = .ok () := by
  rcases halt with _ | failure | ⟨step, fault⟩ <;> rcases stopped with fault | ⟨⟩ <;>
    simp [verdictOf]

theorem unload_of_loaded {b : Bridge σ} (hb : b.loaded = true) (h : Host) :
    (b.unload h).1 = .ok () ↔ (b.plugin.stop b.state h).outcome = .done () := by
  simp [Bridge.unload, hb, Outcome.checked_eq_ok]

/-- A run that is concluded passes exactly when it went well and its
plugin stops well. -/
theorem conclude_passed_iff {p : Plugin σ} (hquiet : p.Quiet) {script : Script}
    {ws : Workspace} {pr : Progress σ} {good : Stage σ → Prop}
    (hreal : Progress.Realizes (Run.Finishes p) pr good) :
    (conclude script ws pr).report.verdict = .passed
      ↔ ∃ last, good last ∧ (p.stop (last.settle p).state last.host).outcome = .done () := by
  have hstop : ∀ last, Run.Finishes p pr.run last →
      ((pr.run.idle.bridge.unload pr.run.idle.host).1 = .ok ()
        ↔ (p.stop (last.settle p).state last.host).outcome = .done ()) := by
    intro last hlast
    obtain ⟨htracks, -⟩ := Run.idle_tracks hquiet hlast.toTracks
    rw [unload_of_loaded htracks.loaded, htracks.plugin, htracks.state, htracks.host]
    rfl
  have hverdict : (conclude script ws pr).report.verdict = .passed
      ↔ pr.halt = none ∧ (pr.run.idle.bridge.unload pr.run.idle.host).1 = .ok () :=
    verdictOf_eq_passed
  rw [hverdict]
  constructor
  · rintro ⟨hhalt, hunload⟩
    obtain ⟨last, hgood, hlast⟩ := hreal.1 hhalt
    exact ⟨last, hgood, (hstop last hlast).mp hunload⟩
  · rintro ⟨last, hgood, hdone⟩
    obtain ⟨hhalt, hlast⟩ := hreal.2 last hgood
    exact ⟨hhalt, (hstop last hlast).mpr hdone⟩

/-- The plugin that was attached has emitted what its start emitted. -/
theorem attach_gathers {p : Plugin σ} {s : σ} {hn : Harness σ} {h : Host} {b : Bridge σ}
    (hb : hn.attach h p s = .ok b) :
    Gathers p hn.config.captureCapacity ⟨h, b, [], 0, 0, .parse⟩
      ⟨h, (p.start s h hn.config.settings).state,
        (p.start s h hn.config.settings).emissions⟩ := by
  obtain ⟨d, -, rfl⟩ := attach_started hb
  exact ⟨⟨rfl, rfl, rfl, rfl⟩, rfl, rfl⟩

/-- A scenario that was attached passes exactly when a course of it
exists. -/
theorem runAttached_passed_iff {p : Plugin σ} (hquiet : p.Quiet) {hn : Harness σ}
    {script : Script} {s : σ} {files : FileSystem} {ws : Workspace} {d : Descriptor}
    (hcreate : Workspace.create hn.host.files hn.root = .ok (files, ws))
    (hdone : (p.start s { hn.host with files } hn.config.settings).outcome = .done d)
    {b : Bridge σ} (hb : hn.attach { hn.host with files } p s = .ok b) :
    (hn.runAttached { hn.host with files } ws script b).report.verdict = .passed
      ↔ Nonempty (Course hn script p s) := by
  have hname : b.descriptor = d := by
    rw [attach_of_done hdone] at hb
    exact congrArg Bridge.descriptor (Except.ok.inj hb).symm
  unfold runAttached
  dsimp only
  rw [conclude_passed_iff hquiet (Run.execute_realizes hquiet (attach_gathers hb)), hname]
  constructor
  · rintro ⟨_, ⟨prepared, hprepares, asserted, hholds, rfl, hsound⟩, hstop⟩
    obtain ⟨parcels, hemitted, hroom, hqueue, hrise, hgroups⟩ :=
      (channel_sound_iff _ _).mp hsound
    rw [hqueue] at hholds
    exact ⟨{
      files, ws, created := hcreate, start := _, start_eq := rfl, descriptor := d
      started := hdone, prepared, prepares := hprepares, parcels, emitted := hemitted
      room := hroom, asserted, holds := hholds, rise := hrise, groupsEnd := hgroups
      stopped := hstop }⟩
  · rintro ⟨course⟩
    obtain ⟨files', ws', hcreate', start, hstart, d', hdone', prepared, hprepares, parcels,
      hemitted, hroom, asserted, hholds, hrise, hgroups, hstop⟩ := course
    rw [hcreate] at hcreate'
    cases hcreate'
    rw [hstart] at hdone
    rw [hdone] at hdone'
    cases hdone'
    have hqueue : ((Channel.bounded hn.config.captureCapacity).takeAll prepared.emitted).queue
        = parcels := by
      rw [hemitted]
      exact Channel.bounded_queue_of_room hroom
    refine ⟨_, ⟨prepared, by rw [hstart]; exact hprepares, asserted, by rw [hqueue]; exact hholds,
      rfl, ?_⟩, hstop⟩
    exact (channel_sound_iff _ _).mpr ⟨parcels, hemitted, hroom, hqueue, hrise, hgroups⟩

theorem conclude_counters {p : Plugin σ} (hquiet : p.Quiet) {script : Script}
    {ws : Workspace} {pr : Progress σ} {good : Stage σ → Prop}
    (hreal : Progress.Realizes (Run.Finishes p) pr good) (hcounted : pr.run.idle.Counted)
    (hpassed : (conclude script ws pr).report.verdict = .passed) :
    (conclude script ws pr).report.parcelsObserved
        = (conclude script ws pr).report.stats.accepted
      ∧ (conclude script ws pr).report.stats.dropped = 0
      ∧ (conclude script ws pr).report.stats.malformed = 0 := by
  obtain ⟨hhalt, -⟩ := verdictOf_eq_passed.mp hpassed
  obtain ⟨last, -, hlast⟩ := hreal.1 hhalt
  obtain ⟨-, hchannel⟩ := Run.idle_tracks hquiet hlast.toTracks
  refine ⟨?_, ?_, ?_⟩
  · have hqueue : pr.run.idle.bridge.channel.queue = [] := by rw [hchannel, hlast.queue]
    rw [Run.Counted, hqueue] at hcounted
    exact hcounted
  · exact (congrArg (·.stats.dropped) hchannel).trans hlast.dropped
  · exact (congrArg (·.stats.malformed) hchannel).trans hlast.malformed

/-- **Passing.** For every script, configuration and clock, and every
plugin that emits only while it is called: the report says passed exactly
when everything held. It then counts each accepted parcel as observed,
and none as lost or malformed; and no report counts more as observed than
were accepted. -/
theorem passed_iff {p : Plugin σ} (hquiet : p.Quiet) (hn : Harness σ) (script : Script)
    (s : σ) :
    let report := (hn.run script (.given p s)).report
    (report.verdict = .passed ↔ Nonempty (Course hn script p s))
      ∧ (report.verdict = .passed →
          report.parcelsObserved = report.stats.accepted
            ∧ report.stats.dropped = 0 ∧ report.stats.malformed = 0)
      ∧ report.parcelsObserved ≤ report.stats.accepted := by
  have hle := observed_le_accepted hn script (.given p s)
  have hrefused : ∀ fault, (refusal script.name none fault).verdict ≠ .passed := by
    intro fault h
    cases h
  dsimp only
  unfold run at hle ⊢
  cases hcreate : Workspace.create hn.host.files hn.root with
  | error fault =>
      refine ⟨⟨fun h => absurd h (hrefused _), ?_⟩, fun h => absurd h (hrefused _),
        Nat.le_refl 0⟩
      rintro ⟨course⟩
      have hcreated := hcreate.symm.trans course.created
      cases hcreated
  | ok created =>
      obtain ⟨files, ws⟩ := created
      rw [hcreate] at hle
      dsimp only [startPlugin] at hle ⊢
      cases hb : hn.attach { hn.host with files } p s with
      | error fault =>
          refine ⟨⟨fun h => absurd h (hrefused _), ?_⟩, fun h => absurd h (hrefused _),
            Nat.le_refl 0⟩
          rintro ⟨course⟩
          obtain ⟨rfl, rfl⟩ := Prod.mk.injEq .. |>.mp
            (Except.ok.inj (hcreate.symm.trans course.created))
          have hok := attach_of_done (course.start_eq ▸ course.started)
          rw [hb] at hok
          cases hok
      | ok b =>
          rw [hb] at hle
          obtain ⟨d, hdone, -⟩ := attach_started hb
          refine ⟨runAttached_passed_iff hquiet hcreate hdone hb, fun hpassed => ?_, hle⟩
          exact conclude_counters hquiet (Run.execute_realizes hquiet (attach_gathers hb))
            (execute_counted (attach_counted hb)) hpassed

end Harness

/-! ## A scenario that passes -/

/-- A rehearsed plugin has no threads. -/
theorem Rehearsal.quiet (r : Rehearsal) : r.plugin.Quiet := fun _ _ _ => rfl

namespace EchoScenario

/-- A harness whose host has no files yet, and nothing but defaults. -/
def harness : Harness RehearsalRecord where
  host := ⟨.empty, fun _ => none, ⟨0, 0, 0, ⟨0, 0⟩, ⟨0, 0⟩, ⟨0, 0⟩⟩, ⟨fun _ _ _ => .nothing⟩⟩
  root := Path.ofText "/w"
  load _ := .error "no such module"
  config := .standard
  clock := .steady 25

def descriptor : Descriptor := ⟨"echo", "1.0", [⟨"watch", 1, [], ⟨7⟩⟩], []⟩

def parcel : Parcel := ⟨⟨0, 0⟩, "echo", "host", "state", .none, ⟨0, 1⟩, none, []⟩

/-- A plugin that answers a request with one parcel. -/
def rehearsal : Rehearsal where
  start := .rest
  status := []
  deliver := [⟨fun _ => [parcel], .done, none⟩]
  stop := .rest

def request : MonitorRequest := ⟨Path.ofText "f", "watch", [], []⟩

/-- A request, and a wait for its answer, which stands first in the
document. -/
def script : Script where
  name := "echo"
  description := none
  kind := .file
  timeout := none
  plugin := none
  steps := [
    ⟨"hear", 0, .await ⟨⟨some "$plugin", none, none, none, none, none, none, 1⟩, none⟩⟩,
    ⟨"ask", 1, .monitor request⟩]

def workspace : Workspace := ⟨Path.ofText "/w", [Utf8.encode "w"]⟩

theorem route : Bridge.route descriptor "watch" (Run.requestJson workspace request) = .ok ⟨7⟩ := by
  cbv

def course : Course harness script rehearsal.plugin ⟨descriptor, 0, [], none, 0⟩ where
  files := FileSystem.empty.add [Utf8.encode "w"] (.directory FileSystem.newDirectory)
  ws := workspace
  created := by cbv
  start := _
  start_eq := rfl
  descriptor := descriptor
  started := rfl
  prepared := _
  prepares := .cons (.monitor rfl route rfl rfl) .nil
  parcels := [parcel]
  emitted := rfl
  room := by decide
  asserted := _
  holds := .cons (.await (by decide +kernel)) .nil
  rise := (rise_and_end_iff_pairwise.mpr (List.pairwise_singleton _ _)).1
  groupsEnd := (rise_and_end_iff_pairwise.mpr (List.pairwise_singleton _ _)).2
  stopped := rfl

end EchoScenario

/-- The scenario of an echo passes. -/
theorem passed_iff_echo :
    EchoScenario.rehearsal.plugin.Quiet
      ∧ (EchoScenario.harness.run EchoScenario.script
          (.given EchoScenario.rehearsal.plugin
            ⟨EchoScenario.descriptor, 0, [], none, 0⟩)).report.verdict = .passed :=
  ⟨Rehearsal.quiet _,
    (Harness.passed_iff (Rehearsal.quiet _) _ _ _).1.mpr ⟨EchoScenario.course⟩⟩

end Conformance
