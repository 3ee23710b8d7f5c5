import Conformance.Scenario.Run

/-!
# How runs are put together

A run goes from one part to the next until a part stops it. Where each
part goes on exactly when a specification allows it to, in a run that
answers for what the specification arrives at, so does the whole
(`realizes_andThen`, `realizes_each`).
-/

namespace Conformance

variable {σ α β : Type}

/-- Steps one after the other, from one stage of a specification to the
next. -/
inductive Steps (good : α → Step → α → Prop) : α → List Step → α → Prop
  | nil {a} : Steps good a [] a
  | cons {a b c step r} (first : good a step b) (rest : Steps good b r c) :
    Steps good a (step :: r) c

namespace Run

@[simp] theorem goesOn_run (run : Run σ) : run.goesOn.run = run := rfl

@[simp] theorem goesOn_halt (run : Run σ) : run.goesOn.halt = none := rfl

@[simp] theorem fails_run (run : Run σ) (failure : ExpectationFailure) :
    (run.fails failure).run = run := rfl

@[simp] theorem fails_halt (run : Run σ) (failure : ExpectationFailure) :
    (run.fails failure).halt = some (.failed failure) := rfl

@[simp] theorem stops_run (run : Run σ) (step : Option String) (fault : HarnessFault) :
    (run.stops step fault).run = run := rfl

@[simp] theorem stops_halt (run : Run σ) (step : Option String) (fault : HarnessFault) :
    (run.stops step fault).halt = some (.errored step fault) := rfl

/-! ## Assertions about files -/

/-- What a look at the files can come to in a step: it leaves the run as it
is and goes on, or fails, stops or breaks off in the name of the step. -/
inductive Looks (step : String) (run : Run σ) : Progress σ → Prop
  | goesOn : Looks step run run.goesOn
  | fails (kind : FailureKind) (expected actual : String) :
    Looks step run (run.fails ⟨step, kind, expected, actual⟩)
  | stops (fault : CaptureFault) : Looks step run (run.stops (some step) (.capture fault))
  | breaksOff {path : Path} {kinds : List AttributeKind} {kind : TimestampKind}
    (hcapture : run.host.capture path kinds = .error (.overflow kind)) :
    Looks step run (run.stops (some step) (.overflow kind))

theorem checkPresence_looks (sc : Scenario) (step : String) (path : Path) (wanted : Bool)
    (run : Run σ) : Looks step run (run.checkPresence sc step path wanted) := by
  unfold checkPresence
  dsimp only
  split
  · exact .stops _
  · split
    · exact .goesOn
    · exact .fails ..

/-- A capture is counted first, whatever comes of it. -/
theorem checkState_looks (sc : Scenario) (step : String) (path : Path)
    (expect : AttributeExpectations) (run : Run σ) :
    Looks step { run with captures := run.captures + 1 } (run.checkState sc step path expect) := by
  unfold checkState
  dsimp only
  split
  · split
    · exact .fails ..
    · exact .stops _
  · rename_i hcapture
    exact .breaksOff hcapture
  · split
    · exact .goesOn
    · exact .fails ..

theorem Looks.run_eq {step : String} {run : Run σ} {pr : Progress σ} (h : Looks step run pr) :
    pr.run = run := by
  cases h <;> rfl

/-! ## The steps of a phase -/

theorem mem_stepsIn {script : Script} {phase : Phase} {step : Step}
    (hmem : step ∈ script.stepsIn phase) : step.directive.phase = phase := by
  simpa using (List.mem_filter.mp hmem).2

end Run

namespace Progress

theorem andThen_of_goesOn {p : Progress σ} (h : p.halt = none) (next : Run σ → Progress σ) :
    p.andThen next = next p.run := by
  simp [andThen, h]

theorem andThen_of_halted {p : Progress σ} (h : p.halt ≠ none) (next : Run σ → Progress σ) :
    p.andThen next = p := by
  obtain ⟨reason, hreason⟩ := Option.ne_none_iff_exists'.mp h
  simp [andThen, hreason]

/-- The run goes on exactly when the specification allows it, and then
answers for a stage that the specification arrives at. -/
def Realizes (R : Run σ → α → Prop) (p : Progress σ) (good : α → Prop) : Prop :=
  (p.halt = none → ∃ a, good a ∧ R p.run a) ∧ ∀ a, good a → p.halt = none ∧ R p.run a

variable {R : Run σ → α → Prop} {R' : Run σ → β → Prop} {p : Progress σ}

theorem realizes_goesOn {run : Run σ} {a : α} (h : R run a) :
    Realizes R run.goesOn (· = a) :=
  ⟨fun _ => ⟨a, rfl, h⟩, fun _ ha => ⟨rfl, ha ▸ h⟩⟩

theorem realizes_of_halt {good : α → Prop} (hp : p.halt ≠ none) (hgood : ∀ a, ¬ good a) :
    Realizes R p good :=
  ⟨fun h => absurd h hp, fun a ha => absurd ha (hgood a)⟩

theorem Realizes.congr {good good' : α → Prop} (h : Realizes R p good)
    (hiff : ∀ a, good a ↔ good' a) : Realizes R p good' := by
  obtain rfl : good = good' := funext fun a => propext (hiff a)
  exact h

/-- **Sequencing.** What comes after a part is only looked at where the
part goes on. -/
theorem realizes_andThen {good : α → Prop} {good' : α → β → Prop} {next : Run σ → Progress σ}
    (hp : Realizes R p good)
    (hnext : ∀ run a, R run a → good a → Realizes R' (next run) (good' a)) :
    Realizes R' (p.andThen next) fun b => ∃ a, good a ∧ good' a b := by
  obtain ⟨run, halt⟩ := p
  cases halt with
  | some reason =>
      refine realizes_of_halt (by simp [andThen]) ?_
      rintro b ⟨a, ha, -⟩
      simpa using (hp.2 a ha).1
  | none =>
      constructor
      · intro hhalt
        obtain ⟨a, ha, hR⟩ := hp.1 rfl
        obtain ⟨b, hb, hR'⟩ := (hnext run a hR ha).1 hhalt
        exact ⟨b, ⟨a, ha, hb⟩, hR'⟩
      · rintro b ⟨a, ha, hb⟩
        exact (hnext run a (hp.2 a ha).2 ha).2 b hb

/-- Several steps realize a specification when each of them does, from
every stage on. -/
theorem realizes_each {good : α → Step → α → Prop} {act : Run σ → Step → Progress σ} :
    ∀ (steps : List Step) {run : Run σ} {a : α},
      (∀ step ∈ steps, ∀ run a, R run a → Realizes R (act run step) (good a step)) →
      R run a → Realizes R (Run.each act run steps) (Steps good a steps)
  | [], run, a, _, hR => by
      refine (realizes_goesOn hR).congr fun b => ?_
      constructor
      · rintro rfl
        exact .nil
      · rintro ⟨⟩
        rfl
  | step :: r, run, a, hact, hR => by
      have hfirst := hact step (List.mem_cons_self ..) run a hR
      have hrest : ∀ run b, R run b → good a step b →
          Realizes R (Run.each act run r) (Steps good b r) := fun run b hb _ =>
        realizes_each r (fun s hs => hact s (List.mem_cons_of_mem _ hs)) hb
      refine (realizes_andThen hfirst hrest).congr fun c => ?_
      constructor
      · rintro ⟨b, hb, hc⟩
        exact .cons hb hc
      · rintro (_ | ⟨hb, hc⟩)
        exact ⟨_, hb, hc⟩

end Progress

end Conformance
