import Conformance.Proofs.Channel.Interleaving
import Conformance.Proofs.Scenario.LateEmissions

/-!
# Waits for parcels

A wait goes through checks, with a bounded wait between any two of them,
and ends with a check. A check lets the plugin's threads run, collects
what has arrived, and counts. So what a wait comes to is a matter of the
lengths of its bounded waits: they say which run each check saw
(`Run.checkAfter`) and what had arrived until then (`Run.heardAfter`).

Neither of the two looks at the clock. What the clock decides is how long
the bounded waits are, and which check is the last (`Waited`). A clock
reaches every time, so there is a last one, whatever the threads do.
-/

namespace Conformance

variable {σ : Type}

namespace Bridge

/-- The parcels that arrive while the plugin's threads run for a while. -/
def heard (b : Bridge σ) (h : Host) (bound : Nat) : List Parcel :=
  b.channel.admitted (b.plugin.background b.state h bound).1

theorem idle_loaded {b : Bridge σ} (hl : b.loaded = true) (h : Host) (bound : Nat) :
    (b.idle h bound).loaded = true := by
  simp [idle, hl]

theorem idle_queue {b : Bridge σ} (hl : b.loaded = true) (h : Host) (bound : Nat) :
    (b.idle h bound).channel.queue = b.channel.queue ++ b.heard h bound := by
  simp only [idle, hl, heard, Bool.not_true, Bool.false_eq_true, if_false]
  exact Channel.takeAll_queue _ _

end Bridge

namespace Run

variable {run : Run σ}

/-! ## Checks -/

/-- The run as a check sees it: what has arrived is collected. -/
def check (run : Run σ) (step : String) : Run σ := (run.collect (some step)).run

/-- The run as the check sees it that comes after checks and bounded waits
of these lengths. -/
def checkAfter (step : String) : List Nat → Run σ → Run σ
  | [], run => run.check step
  | bound :: bounds, run => checkAfter step bounds ((run.check step).waitNext step bound).run

/-- What arrives in checks and bounded waits of these lengths, and in the
check after them. -/
def heardAfter (step : String) : List Nat → Run σ → List Parcel
  | [], run => run.bridge.heard run.host 0
  | bound :: bounds, run =>
    run.bridge.heard run.host 0
      ++ ((run.check step).bridge.heard (run.check step).host bound
        ++ heardAfter step bounds ((run.check step).waitNext step bound).run)

/-- A check of a loaded plugin collects everything, and goes on. -/
structure Collects (run checked : Run σ) (step : String) : Prop where
  goesOn : run.collect (some step) = checked.goesOn
  loaded : checked.bridge.loaded = true
  queue : checked.bridge.channel.queue = []
  observed : checked.observed
    = run.observed ++ (run.bridge.channel.queue ++ run.bridge.heard run.host 0)

theorem check_collects (step : String) (hl : run.bridge.loaded = true) :
    Collects run (run.check step) step := by
  have hidle : run.idle.bridge.loaded = true := Bridge.idle_loaded hl _ _
  have hcollect := collect_of_loaded hidle (some step)
  have hcheck : run.check step = _ := congrArg Progress.run hcollect
  refine ⟨by rw [hcheck, hcollect]; rfl, by rw [hcheck]; exact hidle, by rw [hcheck]; rfl, ?_⟩
  rw [hcheck, ← Bridge.idle_queue hl]
  rfl

/-- A bounded wait of a loaded plugin takes the first of the parcels that
arrive, and leaves the others queued. -/
structure Takes (run waited : Run σ) (step : String) (bound : Nat) : Prop where
  goesOn : run.waitNext step bound = waited.goesOn
  loaded : waited.bridge.loaded = true
  known : waited.observed ++ waited.bridge.channel.queue
    = run.observed ++ run.bridge.heard run.host bound

theorem waitNext_of_empty (step : String) (hl : run.bridge.loaded = true)
    (hqueue : run.bridge.channel.queue = []) (bound : Nat) :
    let b := run.bridge.idle run.host bound
    run.waitNext step bound = goesOn { run with
      bridge := { b with channel := b.channel.next.2 }
      observed := run.observed ++ b.channel.next.1.toList } := by
  simp [waitNext, Bridge.waitNext, hl, hqueue]

theorem waitNext_takes (step : String) (hl : run.bridge.loaded = true)
    (hqueue : run.bridge.channel.queue = []) (bound : Nat) :
    Takes run (run.waitNext step bound).run step bound := by
  have hheard := Bridge.idle_queue hl run.host bound
  rw [hqueue, List.nil_append] at hheard
  have hwait := waitNext_of_empty step hl hqueue bound
  refine ⟨by rw [hwait]; rfl, by rw [hwait]; exact Bridge.idle_loaded hl _ _, ?_⟩
  rw [hwait, ← hheard]
  exact (List.append_assoc ..).trans (congrArg (run.observed ++ ·) (Traffic.next_queue _))

/-- Up to a check everything is observed that was known and that has
arrived since, each parcel once and in order. -/
theorem checkAfter_observed (step : String) (bounds : List Nat) (run : Run σ)
    (hl : run.bridge.loaded = true) :
    (run.checkAfter step bounds).bridge.channel.queue = []
      ∧ (run.checkAfter step bounds).observed
        = run.observed ++ (run.bridge.channel.queue ++ run.heardAfter step bounds) := by
  induction bounds generalizing run with
  | nil => exact ⟨(check_collects step hl).queue, (check_collects step hl).observed⟩
  | cons bound bounds ih =>
      have hcheck := check_collects step hl
      have hwait := waitNext_takes step hcheck.loaded hcheck.queue bound
      obtain ⟨hqueue, hobserved⟩ := ih _ hwait.loaded
      refine ⟨hqueue, ?_⟩
      rw [checkAfter, hobserved, ← List.append_assoc, hwait.known, hcheck.observed, heardAfter]
      simp only [List.append_assoc]

/-! ## The wait -/

/-- A check finds too few parcels, and the clock shows a time before the
deadline. The bounded wait that follows takes as long as configured, but
ends by the deadline. -/
structure Continues (sc : Scenario) (expect : ParcelExpectation) (deadline now bound : Nat)
    (checked : Run σ) : Prop where
  few : checked.hits sc expect < expect.count
  early : now < deadline
  pause : bound = min sc.config.pause (deadline - now)
  ends : now + bound ≤ deadline

/-- The wait goes on after every check but the one behind all of these
bounded waits. -/
def GoesOnFor (sc : Scenario) (step : String) (expect : ParcelExpectation)
    (deadline look : Nat) (run : Run σ) (bounds : List Nat) : Prop :=
  ∀ before bound, before ++ [bound] <+: bounds →
    Continues sc expect deadline (sc.clock.reading (look + before.length)) bound
      (run.checkAfter step before)

/-- How a wait ends with a check, as the clock shows it then. -/
inductive Ends (sc : Scenario) (step : String) (expect : ParcelExpectation)
    (timeout deadline look : Nat) (checked : Run σ) : Progress σ → Prop
  | enough (h : expect.count ≤ checked.hits sc expect) :
    Ends sc step expect timeout deadline look checked
      ({ checked with looks := look } : Run σ).goesOn
  | late (hfew : checked.hits sc expect < expect.count) (h : deadline ≤ sc.clock.reading look) :
    Ends sc step expect timeout deadline look checked
      (({ checked with looks := look + 1 } : Run σ).fails
        (timeoutFailure sc step expect timeout checked))

/-- Another round before all others. -/
theorem GoesOnFor.cons {sc : Scenario} {step : String} {expect : ParcelExpectation}
    {deadline look bound : Nat} {bounds : List Nat}
    (hrest : GoesOnFor sc step expect deadline (look + 1)
      ((run.check step).waitNext step bound).run bounds)
    (hfirst : Continues sc expect deadline (sc.clock.reading look) bound (run.check step)) :
    GoesOnFor sc step expect deadline look run (bound :: bounds) := by
  intro before bound' hprefix
  cases before with
  | nil =>
      obtain ⟨rfl, -⟩ := List.cons_prefix_cons.mp hprefix
      exact hfirst
  | cons first before =>
      obtain ⟨rfl, hbefore⟩ := List.cons_prefix_cons.mp hprefix
      have hround := hrest before bound' hbefore
      rwa [Nat.succ_add_eq_add_succ] at hround

theorem waitUntil_ends (sc : Scenario) (step : String) (expect : ParcelExpectation)
    (timeout deadline look : Nat) (run : Run σ) (hl : run.bridge.loaded = true) :
    ∃ bounds, GoesOnFor sc step expect deadline look run bounds
      ∧ Ends sc step expect timeout deadline (look + bounds.length) (run.checkAfter step bounds)
          (run.waitUntil sc step expect timeout deadline look) := by
  -- A loaded plugin is never refused, so the cases in which that stops the
  -- wait do not arise.
  fun_induction waitUntil sc step expect timeout deadline look run with
  | case1 look run collected reason hhalt =>
      have hgoes : collected.halt = none := congrArg Progress.halt (check_collects step hl).goesOn
      rw [hhalt] at hgoes
      cases hgoes
  | case2 look run collected hhalt henough => exact ⟨[], by simp [GoesOnFor], .enough henough⟩
  | case3 look run collected hhalt hfew hlate =>
      exact ⟨[], by simp [GoesOnFor], .late (Nat.lt_of_not_le hfew) hlate⟩
  | case4 look run collected hhalt hfew hearly waited reason hstop =>
      have hcheck := check_collects step hl
      have hgoes : waited.halt = none :=
        congrArg Progress.halt (waitNext_takes step hcheck.loaded hcheck.queue _).goesOn
      rw [hstop] at hgoes
      cases hgoes
  | case5 look run collected hhalt hfew hearly waited hgo ih =>
      have hcheck := check_collects step hl
      have hwait : Takes collected.run waited.run step _ :=
        waitNext_takes step hcheck.loaded hcheck.queue _
      have hfirst : Continues sc expect deadline (sc.clock.reading look)
          (min sc.config.pause (deadline - sc.clock.reading look)) (run.check step) :=
        ⟨Nat.lt_of_not_le hfew, by omega, rfl, by omega⟩
      obtain ⟨bounds, hcontinues, hends⟩ := ih hwait.loaded
      refine ⟨min sc.config.pause (deadline - sc.clock.reading look) :: bounds, ?_, ?_⟩
      · exact hcontinues.cons hfirst
      · rwa [Nat.succ_add_eq_add_succ] at hends

/-- Of the checks of a wait only the last one can have found enough. -/
theorem enough_iff_last {sc : Scenario} {step : String} {expect : ParcelExpectation}
    {deadline look : Nat} {bounds : List Nat}
    (hcontinues : GoesOnFor sc step expect deadline look run bounds) :
    (∃ before, before <+: bounds ∧ expect.count ≤ (run.checkAfter step before).hits sc expect)
      ↔ expect.count ≤ (run.checkAfter step bounds).hits sc expect := by
  constructor
  · rintro ⟨before, ⟨rest, rfl⟩, henough⟩
    cases rest with
    | nil => rwa [List.append_nil]
    | cons bound rest =>
        have hfew := (hcontinues before bound ⟨rest, by simp⟩).few
        omega
  · intro henough
    exact ⟨bounds, List.prefix_rfl, henough⟩

/-- What a wait of a loaded plugin comes to, with bounded waits of these
lengths between its checks. -/
structure Waited (sc : Scenario) (step : String) (expect : ParcelExpectation) (timeout : Nat)
    (run : Run σ) (bounds : List Nat) (result : Progress σ) : Prop where
  continues : GoesOnFor sc step expect (sc.clock.reading run.looks + timeout) (run.looks + 1)
    run bounds
  succeeds_iff : result.halt = none
    ↔ ∃ before, before <+: bounds ∧ expect.count ≤ (run.checkAfter step before).hits sc expect
  /-- Otherwise the time is over, and the last check found too few. -/
  fails : result.halt ≠ none →
    sc.clock.reading run.looks + timeout ≤ sc.clock.reading (run.looks + 1 + bounds.length)
      ∧ (run.checkAfter step bounds).hits sc expect < expect.count
      ∧ result.halt = some (.failed
          (timeoutFailure sc step expect timeout (run.checkAfter step bounds)))
  /-- Each check has observed all that was queued or has arrived. -/
  observed : ∀ before, before <+: bounds → (run.checkAfter step before).observed
    = run.observed ++ (run.bridge.channel.queue ++ run.heardAfter step before)
  /-- The run is left as the last check saw it. -/
  run : result.run = { run.checkAfter step bounds with looks := result.run.looks }
  queue : result.run.bridge.channel.queue = []

/-- **The wait.** A wait on a plugin that was unloaded is refused and takes
nothing. Any other one succeeds exactly when one of its checks finds
enough parcels among all that were ever observed, and else fails when the
clock has reached the deadline; no bounded wait goes beyond it. What is
observed grows by what was queued and what arrives, in order. -/
theorem waitFor_waited (sc : Scenario) (step : String) (expect : ParcelExpectation)
    (timeout : Nat) (run : Run σ) :
    (run.bridge.loaded = false ∧ run.waitFor sc step expect timeout
        = ({ run with looks := run.looks + 1 } : Run σ).stops (some step) (.bridge .useAfterUnload))
      ∨ run.bridge.loaded = true ∧ ∃ bounds,
        Waited sc step expect timeout run bounds (run.waitFor sc step expect timeout) := by
  cases hl : run.bridge.loaded with
  | false =>
      have hcollect : run.collect (some step)
          = run.stops (some step) (.bridge .useAfterUnload) := by
        simp [collect, idle, Bridge.idle, Bridge.drain, hl]
      refine .inl ⟨rfl, ?_⟩
      rw [waitFor, waitUntil, hcollect]
      rfl
  | true =>
      obtain ⟨bounds, hcontinues, hends⟩ := waitUntil_ends sc step expect timeout
        (sc.clock.reading run.looks + timeout) (run.looks + 1) run hl
      rw [← waitFor] at hends
      generalize run.waitFor sc step expect timeout = result at hends ⊢
      have hlast := enough_iff_last hcontinues
      refine .inr ⟨rfl, bounds, hcontinues, ?_, ?_, ?_, ?_, ?_⟩
      · rw [hlast]
        cases hends with
        | enough h => exact iff_of_true rfl h
        | late hfew _ => exact iff_of_false (Option.some_ne_none _) (Nat.not_le_of_lt hfew)
      · intro hhalt
        cases hends with
        | enough _ => exact absurd rfl hhalt
        | late hfew hlate => exact ⟨hlate, hfew, rfl⟩
      · intro before _
        exact (checkAfter_observed step before run hl).2
      · cases hends <;> rfl
      · have hqueue := (checkAfter_observed step bounds run hl).1
        cases hends <;> exact hqueue

/-- What arrives in the last wait is found, though the clock has passed the
deadline by then. -/
example :
    let sc : Scenario := ⟨EchoScenario.script, .standard, .steady 25, EchoScenario.workspace,
      ⟨"late", "/w"⟩⟩
    let run : Run Nat := ⟨EchoScenario.harness.host,
      ⟨LateThread.plugin [[], [.parcel EchoScenario.parcel]], 0, true, EchoScenario.descriptor,
        .bounded 1⟩, [], 0, 0, .after⟩
    let result := run.waitFor sc "hear" ⟨none, none, none, none, none, none, none, 1⟩ 30
    result.halt = none ∧ result.run.observed = [EchoScenario.parcel]
      ∧ 30 ≤ sc.clock.reading result.run.looks := by
  cbv

end Run

end Conformance
