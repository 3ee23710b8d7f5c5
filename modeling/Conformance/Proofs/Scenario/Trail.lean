import Conformance.Proofs.Scenario.Progress

/-!
# The steps that a run has carried out

A run keeps no list of its steps; it goes from one to the next until one
stops it. `Run.executed` is that list: the steps of a script that were
carried out, each with what came of it. They are the first ones of the
steps that prepare and, behind them, those that assert
(`executed_steps`); all of them but the last went well
(`executed_dropLast`); and where the last one stopped the run, it is the
run that this step has left (`execute_of_halted`).

What is to be said of a whole run in terms of its steps is proved along
this list (`executed_induction`).
-/

namespace Conformance

variable {σ : Type}

/-- A step that was carried out, and what came of it. -/
structure CarriedOut (σ : Type) where
  step : Step
  outcome : Progress σ

def CarriedOut.succeeded (e : CarriedOut σ) : Bool := e.outcome.halt.isNone

theorem CarriedOut.succeeded_iff {e : CarriedOut σ} :
    e.succeeded = true ↔ e.outcome.halt = none :=
  Option.isNone_iff_eq_none

namespace Run

/-- Carries out a step in the phase it belongs to. -/
def carryOut (sc : Scenario) (run : Run σ) (step : Step) : Progress σ :=
  match step.directive.phase with
  | .before => prepare sc run step
  | _ => assert sc run step

/-- The steps of a list that are carried out, up to the first that stops
the run. -/
def trail (sc : Scenario) : Run σ → List Step → List (CarriedOut σ)
  | _, [] => []
  | run, step :: r =>
    ⟨step, carryOut sc run step⟩ ::
      match (carryOut sc run step).halt with
      | none => trail sc (carryOut sc run step).run r
      | some _ => []

/-- The run at the trigger, after the steps that prepare. -/
def triggered (sc : Scenario) (run : Run σ) : Progress σ :=
  (each (carryOut sc) (run.enter .before) (sc.script.stepsIn .before)).andThen fun run =>
    (run.enter .trigger).collect none

/-- The steps of a script that are carried out. -/
def executed (sc : Scenario) (run : Run σ) : List (CarriedOut σ) :=
  trail sc (run.enter .before) (sc.script.stepsIn .before) ++
    match (triggered sc run).halt with
    | none => trail sc ((triggered sc run).run.enter .after) (sc.script.stepsIn .after)
    | some _ => []

/-! ## The run in terms of its steps -/

theorem each_congr {act act' : Run σ → Step → Progress σ} : ∀ (steps : List Step) (run : Run σ),
    (∀ step ∈ steps, ∀ run, act run step = act' run step) →
      each act run steps = each act' run steps
  | [], _, _ => rfl
  | step :: r, run, h => by
      have ih : (fun run => each act run r) = fun run => each act' run r :=
        funext fun run => each_congr r run fun s hs => h s (List.mem_cons_of_mem _ hs)
      rw [each, each, h step (List.mem_cons_self ..), ih]

theorem andThen_assoc (p : Progress σ) (next next' : Run σ → Progress σ) :
    (p.andThen next).andThen next' = p.andThen fun run => (next run).andThen next' := by
  obtain ⟨run, halt⟩ := p
  cases halt <;> rfl

theorem each_of_goesOn {act : Run σ → Step → Progress σ} {run : Run σ} {step : Step}
    (h : (act run step).halt = none) (r : List Step) :
    each act run (step :: r) = each act (act run step).run r :=
  Progress.andThen_of_goesOn h _

theorem each_of_halted {act : Run σ → Step → Progress σ} {run : Run σ} {step : Step}
    (h : (act run step).halt ≠ none) (r : List Step) :
    each act run (step :: r) = act run step :=
  Progress.andThen_of_halted h _

/-- A run up to the trigger, and from there to its end. -/
theorem execute_eq (sc : Scenario) (run : Run σ) :
    execute sc run = (triggered sc run).andThen fun run =>
      (each (carryOut sc) (run.enter .after) (sc.script.stepsIn .after)).andThen fun run =>
      (run.collect none).andThen fun run =>
      (run.checkStream sc).andThen fun run =>
      (run.enter .done).goesOn := by
  have hbefore : ∀ run : Run σ, each (prepare sc) run (sc.script.stepsIn .before)
      = each (carryOut sc) run (sc.script.stepsIn .before) := by
    intro run
    refine each_congr _ run fun step hstep run => ?_
    rw [carryOut, mem_stepsIn hstep]
  have hafter : ∀ run : Run σ, each (assert sc) run (sc.script.stepsIn .after)
      = each (carryOut sc) run (sc.script.stepsIn .after) := by
    intro run
    refine each_congr _ run fun step hstep run => ?_
    rw [carryOut, mem_stepsIn hstep]
  unfold execute triggered
  simp only [hbefore, hafter, andThen_assoc]

/-! ## Trails -/

variable {sc : Scenario}

theorem trail_of_goesOn {run : Run σ} {step : Step} (h : (carryOut sc run step).halt = none)
    (r : List Step) :
    trail sc run (step :: r)
      = ⟨step, carryOut sc run step⟩ :: trail sc (carryOut sc run step).run r := by
  simp [trail, h]

theorem trail_of_halted {run : Run σ} {step : Step} (h : (carryOut sc run step).halt ≠ none)
    (r : List Step) : trail sc run (step :: r) = [⟨step, carryOut sc run step⟩] := by
  obtain ⟨reason, hreason⟩ := Option.ne_none_iff_exists'.mp h
  simp [trail, hreason]

theorem trail_steps : ∀ (steps : List Step) (run : Run σ),
    (trail sc run steps).map (·.step) <+: steps
  | [], _ => List.prefix_rfl
  | step :: r, run => by
      have ih := trail_steps r (carryOut sc run step).run
      rw [trail, List.map_cons]
      refine List.cons_prefix_cons.mpr ⟨rfl, ?_⟩
      split
      · exact ih
      · exact List.nil_prefix

theorem trail_outcome : ∀ (steps : List Step) (run : Run σ), ∀ e ∈ trail sc run steps,
    ∃ run, e.outcome = carryOut sc run e.step
  | [], _ => by simp [trail]
  | step :: r, run => by
      rw [trail]
      refine List.forall_mem_cons.mpr ⟨⟨run, rfl⟩, ?_⟩
      split
      · exact trail_outcome r _
      · simp

/-- Either every step goes well, and then all of them are carried out; or
the last one that is carried out is the first that does not. -/
theorem trail_cases (sc : Scenario) : ∀ (steps : List Step) (run : Run σ),
    ((each (carryOut sc) run steps).halt = none
        ∧ (trail sc run steps).map (·.step) = steps
        ∧ ∀ e ∈ trail sc run steps, e.outcome.halt = none)
      ∨ ∃ before last, trail sc run steps = before ++ [last]
          ∧ (∀ e ∈ before, e.outcome.halt = none) ∧ last.outcome.halt ≠ none
          ∧ each (carryOut sc) run steps = last.outcome
  | [], _ => .inl ⟨rfl, rfl, by simp [trail]⟩
  | step :: r, run => by
      by_cases hhalt : (carryOut sc run step).halt = none
      · rw [each_of_goesOn hhalt, trail_of_goesOn hhalt]
        rcases trail_cases sc r (carryOut sc run step).run with
          ⟨hgo, hsteps, hall⟩ | ⟨before, last, heq, hbefore, hlast, hrun⟩
        · left
          refine ⟨hgo, by rw [List.map_cons, hsteps], ?_⟩
          exact List.forall_mem_cons.mpr ⟨hhalt, hall⟩
        · right
          refine ⟨⟨step, carryOut sc run step⟩ :: before, last, by rw [heq]; rfl, ?_, hlast, hrun⟩
          exact List.forall_mem_cons.mpr ⟨hhalt, hbefore⟩
      · right
        rw [each_of_halted hhalt, trail_of_halted hhalt]
        exact ⟨[], ⟨step, carryOut sc run step⟩, rfl, by simp, hhalt, rfl⟩

/-- What each step does to an account of the steps so far, all of which
went well, holds for a list of steps. -/
theorem trail_induction (Account : Run σ → List (CarriedOut σ) → Prop)
    (hstep : ∀ run done step, (∀ e ∈ done, e.outcome.halt = none) → Account run done →
      Account (carryOut sc run step).run (done ++ [⟨step, carryOut sc run step⟩])) :
    ∀ (steps : List Step) (run : Run σ) (done : List (CarriedOut σ)),
      (∀ e ∈ done, e.outcome.halt = none) → Account run done →
        Account (each (carryOut sc) run steps).run (done ++ trail sc run steps)
  | [], run, done, _, h => by simpa [trail, each] using h
  | step :: r, run, done, hdone, h => by
      have hone := hstep run done step hdone h
      by_cases hhalt : (carryOut sc run step).halt = none
      · have hdone' : ∀ e ∈ done ++ [(⟨step, carryOut sc run step⟩ : CarriedOut σ)],
            e.outcome.halt = none := by
          intro e he
          rcases List.mem_append.mp he with he | he
          · exact hdone e he
          · obtain rfl := List.mem_singleton.mp he
            exact hhalt
        have hrest := trail_induction Account hstep r _ _ hdone' hone
        rw [each_of_goesOn hhalt, trail_of_goesOn hhalt]
        rwa [List.append_assoc, List.singleton_append] at hrest
      · rw [each_of_halted hhalt, trail_of_halted hhalt]
        exact hone

/-! ## The steps of a whole run -/

variable (sc) (run : Run σ)

theorem executed_of_halted {before : List (CarriedOut σ)} {last : CarriedOut σ}
    (htrail : trail sc (run.enter .before) (sc.script.stepsIn .before) = before ++ [last])
    (hlast : last.outcome.halt ≠ none)
    (heach : each (carryOut sc) (run.enter .before) (sc.script.stepsIn .before) = last.outcome) :
    executed sc run = before ++ [last] ∧ execute sc run = last.outcome := by
  have htriggered : triggered sc run = last.outcome := by
    rw [triggered, heach]
    exact Progress.andThen_of_halted hlast _
  constructor
  · obtain ⟨reason, hreason⟩ := Option.ne_none_iff_exists'.mp hlast
    simp [executed, htrail, htriggered, hreason]
  · rw [execute_eq, htriggered]
    exact Progress.andThen_of_halted hlast _

/-- How far a run has come. Its preparation was stopped by a step, or by
the collection at the trigger; or it has come to the steps that assert,
and those were stopped or not. -/
theorem executed_cases :
    (∃ before last, executed sc run = before ++ [last]
        ∧ (∀ e ∈ before, e.outcome.halt = none) ∧ last.outcome.halt ≠ none
        ∧ execute sc run = last.outcome)
      ∨ (∀ e ∈ executed sc run, e.outcome.halt = none)
        ∧ ((triggered sc run).halt = none →
          (executed sc run).map (·.step)
            = sc.script.stepsIn .before ++ sc.script.stepsIn .after) := by
  rcases trail_cases sc (sc.script.stepsIn .before) (run.enter .before) with
    ⟨-, hsteps, hall⟩ | ⟨before, last, htrail, hbefore, hlast, heach⟩
  · cases htrigger : (triggered sc run).halt with
    | some reason =>
        right
        have hexecuted : executed sc run
            = trail sc (run.enter .before) (sc.script.stepsIn .before) := by
          simp [executed, htrigger]
        rw [hexecuted]
        exact ⟨hall, by simp⟩
    | none =>
        have hexecuted : executed sc run
            = trail sc (run.enter .before) (sc.script.stepsIn .before)
              ++ trail sc ((triggered sc run).run.enter .after) (sc.script.stepsIn .after) := by
          simp [executed, htrigger]
        rw [hexecuted]
        rcases trail_cases sc (sc.script.stepsIn .after)
            ((triggered sc run).run.enter .after) with
          ⟨-, hsteps', hall'⟩ | ⟨before, last, htrail, hbefore, hlast, heach⟩
        · right
          refine ⟨fun e he => ?_, fun _ => by rw [List.map_append, hsteps, hsteps']⟩
          exact (List.mem_append.mp he).elim (hall e) (hall' e)
        · left
          refine ⟨_, last, by rw [htrail, ← List.append_assoc], fun e he => ?_, hlast, ?_⟩
          · exact (List.mem_append.mp he).elim (hall e) (hbefore e)
          · rw [execute_eq, Progress.andThen_of_goesOn htrigger, heach]
            exact Progress.andThen_of_halted hlast _
  · left
    obtain ⟨hexecuted, hexecute⟩ := executed_of_halted sc run htrail hlast heach
    exact ⟨before, last, hexecuted, hbefore, hlast, hexecute⟩

/-- The steps are carried out in the order of the document, first those
that prepare. -/
theorem executed_steps :
    (executed sc run).map (·.step)
      <+: sc.script.stepsIn .before ++ sc.script.stepsIn .after := by
  rcases trail_cases sc (sc.script.stepsIn .before) (run.enter .before) with
    ⟨-, hsteps, -⟩ | ⟨before, last, htrail, -, hlast, heach⟩
  · rw [executed, List.map_append, hsteps]
    refine (List.prefix_append_right_inj _).mpr ?_
    split
    · exact trail_steps ..
    · exact List.nil_prefix
  · obtain ⟨hexecuted, -⟩ := executed_of_halted sc run htrail hlast heach
    rw [hexecuted, ← htrail]
    exact (trail_steps ..).trans (List.prefix_append _ _)

/-- No step but the last that was carried out has stopped the run. -/
theorem executed_dropLast : ∀ e ∈ (executed sc run).dropLast, e.outcome.halt = none := by
  intro e he
  rcases executed_cases sc run with ⟨before, last, heq, hbefore, -, -⟩ | ⟨hall, -⟩
  · rw [heq, List.dropLast_concat] at he
    exact hbefore e he
  · exact hall e (List.dropLast_subset _ he)

theorem executed_outcome :
    ∀ e ∈ executed sc run, ∃ run, e.outcome = carryOut sc run e.step := by
  intro e he
  rw [executed] at he
  rcases List.mem_append.mp he with he | he
  · exact trail_outcome _ _ e he
  · split at he
    · exact trail_outcome _ _ e he
    · cases he

/-- A run that a step has stopped is what that step has left. -/
theorem execute_of_halted {e : CarriedOut σ} (he : (executed sc run).getLast? = some e)
    (hhalt : e.outcome.halt ≠ none) : execute sc run = e.outcome := by
  rcases executed_cases sc run with ⟨before, last, heq, -, -, hexecute⟩ | ⟨hall, -⟩
  · rw [heq, List.getLast?_concat] at he
    obtain rfl := Option.some.inj he
    exact hexecute
  · exact absurd (hall e (List.mem_of_getLast? he)) hhalt

/-- **Runs by their steps.** An account of the steps so far that each
step goes on with, and that looks at the channel leave alone, is one of
the whole run. -/
theorem executed_induction (Account : Run σ → List (CarriedOut σ) → Prop)
    (hstep : ∀ run done step, (∀ e ∈ done, e.outcome.halt = none) → Account run done →
      Account (carryOut sc run step).run (done ++ [⟨step, carryOut sc run step⟩]))
    (henter : ∀ run done phase, Account run done → Account (run.enter phase) done)
    (hcollect : ∀ run done, Account run done → Account (run.collect none).run done)
    (hcheck : ∀ run done, Account run done → Account (run.checkStream sc).run done)
    (h : Account run []) : Account (execute sc run).run (executed sc run) := by
  have hthen : ∀ {p : Progress σ} {next : Run σ → Progress σ} {done},
      Account p.run done → (∀ run, Account run done → Account (next run).run done) →
        Account (p.andThen next).run done := by
    rintro ⟨run, halt⟩ next done hp hnext
    cases halt with
    | none => exact hnext run hp
    | some reason => exact hp
  have hbefore := trail_induction Account hstep (sc.script.stepsIn .before) (run.enter .before) []
    (by simp) (henter _ _ _ h)
  rw [List.nil_append] at hbefore
  have htriggered : Account (triggered sc run).run
      (trail sc (run.enter .before) (sc.script.stepsIn .before)) :=
    hthen hbefore fun run hrun => hcollect _ _ (henter _ _ _ hrun)
  rw [execute_eq, executed]
  cases htrigger : (triggered sc run).halt with
  | some reason =>
      rw [Progress.andThen_of_halted (by simp [htrigger]), List.append_nil]
      exact htriggered
  | none =>
      -- The trigger is only come to if every step before it went well.
      have hgood : ∀ e ∈ trail sc (run.enter .before) (sc.script.stepsIn .before),
          e.outcome.halt = none := by
        rcases trail_cases sc (sc.script.stepsIn .before) (run.enter .before) with
          ⟨-, -, hall⟩ | ⟨_, last, -, -, hlast, heach⟩
        · exact hall
        · rw [triggered, heach, Progress.andThen_of_halted hlast] at htrigger
          exact absurd htrigger hlast
      have hafter := trail_induction Account hstep (sc.script.stepsIn .after) _ _ hgood
        (henter _ _ .after htriggered)
      rw [Progress.andThen_of_goesOn htrigger]
      refine hthen hafter fun run hrun => hthen (hcollect _ _ hrun) fun run hrun => ?_
      exact hthen (hcheck _ _ hrun) fun run hrun => henter _ _ _ hrun

end Run

end Conformance
