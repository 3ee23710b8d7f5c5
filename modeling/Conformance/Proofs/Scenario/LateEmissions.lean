import Conformance.Proofs.Scenario.FirstFailure

/-!
# What arrives after the check

The counters of the channel are read twice: by the check at the end of the
steps, and again for the report. The threads of a plugin run on in
between. So a report that says passed shows the counters that have passed
the check, and what the threads have emitted since
(`Harness.passed_stats`); it shows nothing as lost exactly when all of
that were parcels for which there was room.

A plugin whose thread comes late enough makes a scenario pass with a
report of lost parcels (`Harness.passed_with_losses`).
-/

namespace Conformance

variable {σ : Type}

/-! ## Channels in use -/

/-- Somebody receives, and no more is queued than there is room for. -/
structure Channel.InUse (c : Channel) : Prop where
  received : c.received = true
  fits : c.queue.length ≤ c.limit

namespace Channel

theorem bounded_inUse (capacity : Nat) : (bounded capacity).InUse := ⟨rfl, Nat.zero_le _⟩

theorem InUse.take {c : Channel} (h : c.InUse) (e : Emission) : (c.take e).InUse := by
  refine ⟨(take_received c e).trans h.received, ?_⟩
  cases e with
  | malformed => exact h.fits
  | parcel p =>
      by_cases hroom : c.queue.length < c.limit
      · rw [take_parcel_of_room h.received hroom]
        simp only [List.length_append, List.length_singleton]
        omega
      · simpa [Channel.take, emit, enqueue, count, h.received, hroom] using h.fits

theorem InUse.takeAll {c : Channel} (h : c.InUse) (es : List Emission) :
    (c.takeAll es).InUse := by
  induction es generalizing c with
  | nil => exact h
  | cons e es ih => exact ih (h.take e)

theorem InUse.drain {c : Channel} (h : c.InUse) : c.drain.2.InUse :=
  ⟨h.received, Nat.zero_le _⟩

theorem InUse.next {c : Channel} (h : c.InUse) : c.next.2.InUse := by
  obtain ⟨limit, queue, stats, received⟩ := c
  cases queue with
  | nil => exact h
  | cons p r => exact ⟨h.received, Nat.le_of_succ_le h.fits⟩

end Channel

namespace Bridge

variable {b : Bridge σ}

theorem pollStatus_inUse (hb : b.channel.InUse) (h : Host) :
    (b.pollStatus h).2.channel.InUse := by
  unfold pollStatus
  split
  · exact hb
  · dsimp only
    split <;> exact hb.takeAll _

theorem idle_inUse (hb : b.channel.InUse) (h : Host) (bound : Nat) :
    (b.idle h bound).channel.InUse := by
  unfold idle
  split
  · exact hb
  · exact hb.takeAll _

/-- No operation ends the use of a channel, the unload included. -/
theorem perform_inUse (hb : b.channel.InUse) (h : Host) (op : BridgeOp) :
    (b.perform h op).2.channel.InUse := by
  cases op with
  | status => exact pollStatus_inUse hb h
  | deliver capability request =>
      have hpoll := pollStatus_inUse hb h
      unfold perform deliver
      generalize b.pollStatus h = polled at hpoll ⊢
      obtain ⟨fault | d, b'⟩ := polled
      · exact hpoll
      · dsimp only
        split
        · exact hpoll
        · exact hpoll.takeAll _
  | drain =>
      unfold perform drain
      cases b.loaded with
      | false => exact hb
      | true => exact hb.drain
  | waitNext bound =>
      unfold perform waitNext
      cases b.loaded with
      | false => exact hb
      | true =>
          refine Channel.InUse.next ?_
          split
          · exact idle_inUse hb h bound
          · exact hb
  | descriptor => exact hb
  | stats => exact hb
  | unload =>
      unfold perform unload
      cases b.loaded with
      | false => exact hb
      | true => exact (hb.takeAll _).takeAll _
  | idle bound => exact idle_inUse hb h bound
  | arrive emissions => exact hb.takeAll emissions

end Bridge

namespace Run

theorem move_inUse {ws : Workspace} {run run' : Run σ} (hm : Move ws run run')
    (h : run.bridge.channel.InUse) : run'.bridge.channel.InUse := by
  cases hm with
  | aside hb _ _ => exact hb ▸ h
  | change _ => exact h
  | operate op _ => exact Bridge.perform_inUse h run.host op

/-! ## The check -/

/-- What the threads of the plugin emit until the host does its next
step. -/
def late (run : Run σ) : List Emission :=
  (run.bridge.plugin.background run.bridge.state run.host 0).1

theorem idle_channel {run : Run σ} (h : run.bridge.loaded = true) :
    run.idle.bridge.channel = run.bridge.channel.takeAll run.late := by
  simp [idle, Bridge.idle, late, h]

theorem idle_lossless_iff {run : Run σ} (h : run.bridge.loaded = true)
    (huse : run.bridge.channel.InUse)
    (hclean : run.bridge.stats.dropped = 0 ∧ run.bridge.stats.malformed = 0) :
    run.idle.bridge.stats.dropped = 0 ∧ run.idle.bridge.stats.malformed = 0
      ↔ ∃ parcels : List Parcel, run.late = parcels.map .parcel
        ∧ run.bridge.channel.queue.length + parcels.length ≤ run.bridge.channel.limit := by
  obtain ⟨hdropped, hmalformed⟩ := hclean
  have hlossless := Channel.takeAll_lossless_iff run.late _ huse.received huse.fits
  rw [← idle_channel h] at hlossless
  rwa [show run.bridge.channel.stats.dropped = 0 from hdropped,
    show run.bridge.channel.stats.malformed = 0 from hmalformed] at hlossless

theorem checkStream_stats {sc : Scenario} {run : Run σ}
    (h : (run.checkStream sc).halt = none) :
    (run.checkStream sc).run.bridge.stats.dropped = 0
      ∧ (run.checkStream sc).run.bridge.stats.malformed = 0 := by
  unfold checkStream at h ⊢
  dsimp only at h ⊢
  split at h
  · rename_i hsound
    exact (streamFailure?_eq_none.mp hsound).1
  · cases h

/-- A run that nothing has stopped has lost nothing up to its end. -/
theorem execute_stats {sc : Scenario} {run : Run σ} (h : (execute sc run).halt = none) :
    (execute sc run).run.bridge.stats.dropped = 0
      ∧ (execute sc run).run.bridge.stats.malformed = 0 := by
  have hthen : ∀ {p : Progress σ} {next : Run σ → Progress σ},
      (p.andThen next).halt = none → p.halt = none := by
    rintro ⟨run, _ | reason⟩ next hhalt
    · rfl
    · cases hhalt
  -- Each part has gone on, so the end of the run is the one the check has left.
  rw [execute_eq] at h ⊢
  have htrigger := hthen h
  rw [Progress.andThen_of_goesOn htrigger] at h ⊢
  have hafter := hthen h
  rw [Progress.andThen_of_goesOn hafter] at h ⊢
  have hcollect := hthen h
  rw [Progress.andThen_of_goesOn hcollect] at h ⊢
  have hcheck := hthen h
  rw [Progress.andThen_of_goesOn hcheck]
  exact checkStream_stats hcheck

end Run

/-! ## The report -/

/-- **Late losses.** A scenario that passes has lost nothing up to the
check. Its report adds what the plugin's threads emit from then on, and
shows a loss unless all of that are parcels that find room. -/
theorem Harness.passed_stats (hn : Harness σ) (script : Script) (source : Source σ)
    (hpassed : (hn.run script source).report.verdict = .passed) :
    ∃ sc start, hn.outset script source = some (sc, start) ∧
      let last := (Run.execute sc start).run
      let stats := (hn.run script source).report.stats
      (last.bridge.stats.dropped = 0 ∧ last.bridge.stats.malformed = 0)
        ∧ stats = (last.bridge.channel.takeAll last.late).stats
        ∧ (stats.dropped = 0 ∧ stats.malformed = 0
          ↔ ∃ parcels : List Parcel, last.late = parcels.map .parcel
            ∧ last.bridge.channel.queue.length + parcels.length
              ≤ last.bridge.channel.limit) := by
  rcases outset_cases hn script source with
    ⟨-, fault, files, state, hrun, -⟩ | ⟨ws, p, s, h, b, -, hb, hsome, hrun⟩
  · rw [hrun] at hpassed
    cases hpassed
  · refine ⟨_, _, hsome, ?_⟩
    rw [hrun] at hpassed ⊢
    obtain ⟨hhalt, -⟩ := verdictOf_eq_passed.mp hpassed
    obtain ⟨hstart, hinUse⟩ : Run.Carries p ⟨h, b, [], 0, 0, .parse⟩ ∧ b.channel.InUse := by
      obtain ⟨d, -, rfl⟩ := attach_started hb
      exact ⟨⟨rfl, rfl⟩, (Channel.bounded_inUse _).takeAll _⟩
    have hmoves := (Run.execute_reaches (hn.scenario ws script b) ⟨h, b, [], 0, 0, .parse⟩).moves
    have hloaded := (hstart.moves hmoves).loaded
    have huse := Run.moves_induction (fun _ _ => Run.move_inUse) hmoves hinUse
    have hcheck := Run.execute_stats hhalt
    have hstats := congrArg Channel.stats (Run.idle_channel hloaded)
    exact ⟨hcheck, hstats, Run.idle_lossless_iff hloaded huse hcheck⟩

/-! ## A thread that comes late -/

namespace LateThread

/-- A plugin with a thread that emits what a schedule says, one entry
whenever it gets to run. -/
def plugin (schedule : List (List Emission)) : Plugin Nat where
  start n _ _ := ⟨.done ⟨"late", "1.0", [], []⟩, [], n⟩
  status n _ := ⟨.done ⟨"late", "1.0", [], []⟩, [], n⟩
  deliver n _ _ _ := ⟨.done (), [], n⟩
  stop n _ := ⟨.done (), [], n⟩
  release n _ := ([], n)
  background n _ _ := (schedule.getD n [], n + 1)

def harness : Harness Nat where
  host := EchoScenario.harness.host
  root := EchoScenario.harness.root
  load _ := .error "no such module"
  config := { Config.standard with captureCapacity := 1 }
  clock := .steady 25

def script : Script :=
  { EchoScenario.script with steps := [⟨"look", 0, .presence (Path.ofText "f") false⟩] }

/-- The thread does nothing at the trigger, at the last collection and at
the check. Then it emits what is no parcel, and two parcels where there is
room for one. -/
def source : Source Nat :=
  .given (plugin [[], [], [],
    [.malformed, .parcel EchoScenario.parcel, .parcel EchoScenario.parcel]]) 0

theorem passes : (harness.run script source).report.verdict = .passed := by
  cbv

end LateThread

/-- What comes after the check is counted, and nobody looks at it. -/
theorem Harness.passed_stats_lateThread :
    ∃ sc start, LateThread.harness.outset LateThread.script LateThread.source = some (sc, start)
      ∧ ((Run.execute sc start).run.bridge.stats.dropped = 0
        ∧ (Run.execute sc start).run.bridge.stats.malformed = 0)
      ∧ (LateThread.harness.run LateThread.script LateThread.source).report.stats
        = ((Run.execute sc start).run.bridge.channel.takeAll
            (Run.execute sc start).run.late).stats := by
  obtain ⟨sc, start, hsome, hcheck, hstats, -⟩ := Harness.passed_stats LateThread.harness
    LateThread.script LateThread.source LateThread.passes
  exact ⟨sc, start, hsome, hcheck, hstats⟩

/-- A scenario can pass and report lost parcels. -/
theorem Harness.passed_with_losses :
    let report := (LateThread.harness.run LateThread.script LateThread.source).report
    report.verdict = .passed ∧ report.stats = ⟨1, 1, 1⟩ := by
  exact ⟨LateThread.passes, by cbv⟩

end Conformance
