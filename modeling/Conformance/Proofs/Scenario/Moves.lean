import Mathlib.Logic.Relation
import Conformance.Proofs.Bridge.Operations
import Conformance.Proofs.Scenario.Progress

/-!
# What a run does

Whatever a script says, a run only ever does three things: it carries out
an operation on its bridge and observes the parcels that come of it, it
applies a fixture, or it does something that touches neither the bridge
nor the host nor what was observed. It never unloads. And where it stops
with a fault of the bridge, that is what an operation on the way has
answered; where it breaks off, a capture on the way did. `execute_reaches`
says so of the whole run, however it ends; a property that all kinds of
moves keep is an invariant of every run.
-/

namespace Conformance

/-- The parcels that an operation takes out of the channel. -/
def BridgeAnswer.taken : Except BridgeFault BridgeAnswer → List Parcel
  | .ok (.parcels ps) => ps
  | .ok (.parcel p) => p.toList
  | _ => []

namespace Run

variable {σ : Type} {ws : Workspace}

/-- The run after an operation on its bridge. -/
def operate (run : Run σ) (op : BridgeOp) : Run σ :=
  { run with
    bridge := (run.bridge.perform run.host op).2
    observed := run.observed ++ BridgeAnswer.taken (run.bridge.perform run.host op).1 }

/-- The run after a fixture. -/
def change (ws : Workspace) (run : Run σ) (fixture : Fixture) : Run σ :=
  { run with host := { run.host with files := (ws.apply run.host fixture).1 } }

/-- One move of a run in a workspace. -/
inductive Move (ws : Workspace) : Run σ → Run σ → Prop
  | aside {run run' : Run σ} (hb : run'.bridge = run.bridge) (hh : run'.host = run.host)
    (ho : run'.observed = run.observed) : Move ws run run'
  | change {run : Run σ} (fixture : Fixture) : Move ws run (run.change ws fixture)
  | operate {run : Run σ} (op : BridgeOp) (hop : op ≠ .unload) : Move ws run (run.operate op)

/-- Several moves of a run. -/
abbrev Moves (ws : Workspace) : Run σ → Run σ → Prop := Relation.ReflTransGen (Move ws)

theorem moves_aside {run run' : Run σ} (hb : run'.bridge = run.bridge)
    (hh : run'.host = run.host) (ho : run'.observed = run.observed) : Moves ws run run' :=
  .single (.aside hb hh ho)

theorem moves_operate (run : Run σ) (op : BridgeOp) (hop : op ≠ .unload) :
    Moves ws run (run.operate op) :=
  .single (.operate op hop)

/-- What every move keeps holds wherever a run gets. -/
theorem moves_induction {Inv : Run σ → Prop} {run run' : Run σ}
    (hstep : ∀ run run', Move ws run run' → Inv run → Inv run') (hm : Moves ws run run')
    (h : Inv run) : Inv run' := by
  induction hm with
  | refl => exact h
  | tail _ hmove ih => exact hstep _ _ hmove ih

/-- How a run has come to a fault: an operation has answered with it, or a
capture has broken off. Nothing is said about other faults. -/
inductive Meets (run : Run σ) : HarnessFault → Prop
  | operation {op : BridgeOp} {fault : BridgeFault}
    (hanswer : (run.bridge.perform run.host op).1 = .error fault) : Meets run (.bridge fault)
  | capture {path : Path} {kinds : List AttributeKind} {kind : TimestampKind}
    (hcapture : run.host.capture path kinds = .error (.overflow kind)) :
    Meets run (.overflow kind)
  | other {fault : HarnessFault} (hbridge : ∀ f, fault ≠ .bridge f)
    (hoverflow : ∀ kind, fault ≠ .overflow kind) : Meets run fault

/-- A part of a run moves, and if it stops with a fault, it has met that
fault. -/
structure Reaches (ws : Workspace) (run : Run σ) (p : Progress σ) : Prop where
  moves : Moves ws run p.run
  fault : ∀ step fault, p.halt = some (.errored step fault) →
    ∃ before, Moves ws run before ∧ before.Meets fault

namespace Reaches

variable {run run' : Run σ} {p : Progress σ}

theorem goesOn (h : Moves ws run run') : Reaches ws run run'.goesOn :=
  ⟨h, by simp⟩

theorem fails (h : Moves ws run run') (failure : ExpectationFailure) :
    Reaches ws run (run'.fails failure) :=
  ⟨h, by simp⟩

/-- A run may stop with what it has met on the way. -/
theorem stops {before : Run σ} {fault : HarnessFault} (hbefore : Moves ws run before)
    (hmeets : before.Meets fault) (h : Moves ws run run') (step : Option String) :
    Reaches ws run (run'.stops step fault) := by
  refine ⟨h, fun step' f heq => ⟨before, hbefore, ?_⟩⟩
  simp only [stops_halt, Option.some.injEq, Halt.errored.injEq] at heq
  exact heq.2 ▸ hmeets

theorem trans (h : Moves ws run run') (hp : Reaches ws run' p) : Reaches ws run p := by
  refine ⟨h.trans hp.moves, fun step fault hhalt => ?_⟩
  obtain ⟨before, hbefore, hmeets⟩ := hp.fault step fault hhalt
  exact ⟨before, h.trans hbefore, hmeets⟩

/-- Afterwards something may be noted in the run. -/
theorem noting (hp : Reaches ws run p) (h : Moves ws p.run run') :
    Reaches ws run ⟨run', p.halt⟩ :=
  ⟨hp.moves.trans h, hp.fault⟩

theorem andThen {next : Run σ → Progress σ} (hp : Reaches ws run p)
    (hnext : ∀ run, Reaches ws run (next run)) : Reaches ws run (p.andThen next) := by
  obtain ⟨run', halt⟩ := p
  cases halt with
  | none => exact (hnext run').trans hp.moves
  | some reason => exact hp

end Reaches

theorem each_reaches {act : Run σ → Step → Progress σ}
    (hact : ∀ run step, Reaches ws run (act run step)) :
    ∀ (steps : List Step) (run : Run σ), Reaches ws run (each act run steps)
  | [], _ => .goesOn .refl
  | step :: r, run => (hact run step).andThen (each_reaches hact r)

/-! ## The channel -/

theorem idle_moves (run : Run σ) : Moves ws run run.idle := by
  have h : run.idle = run.operate (.idle 0) := by
    simp [idle, operate, Bridge.perform, BridgeAnswer.taken]
  rw [h]
  exact moves_operate run _ (by simp)

theorem collect_reaches (run : Run σ) (step : Option String) :
    Reaches ws run (run.collect step) := by
  refine .trans (idle_moves run) ?_
  have hop : Moves ws run.idle (run.idle.operate .drain) := moves_operate _ _ (by simp)
  have hanswer : (run.idle.bridge.perform run.idle.host .drain).1
      = run.idle.bridge.drain.1.map .parcels := rfl
  simp only [operate, Bridge.perform] at hop
  unfold collect
  dsimp only
  generalize run.idle.bridge.drain = drained at hop hanswer ⊢
  obtain ⟨answer, bridge⟩ := drained
  cases answer with
  | ok parcels => exact .goesOn hop
  | error fault =>
      refine .stops .refl (.operation hanswer) ?_ step
      simpa [BridgeAnswer.taken, Except.map] using hop

theorem waitNext_reaches (run : Run σ) (step : String) (bound : Nat) :
    Reaches ws run (run.waitNext step bound) := by
  have hop : Moves ws run (run.operate (.waitNext bound)) := moves_operate _ _ (by simp)
  have hanswer : (run.bridge.perform run.host (.waitNext bound)).1
      = (run.bridge.waitNext run.host bound).1.map .parcel := rfl
  simp only [operate, Bridge.perform] at hop
  unfold waitNext
  generalize run.bridge.waitNext run.host bound = waited at hop hanswer ⊢
  obtain ⟨answer, bridge⟩ := waited
  cases answer with
  | ok parcel => exact .goesOn hop
  | error fault =>
      refine .stops .refl (.operation hanswer) ?_ (some step)
      simpa [BridgeAnswer.taken, Except.map] using hop

theorem waitUntil_reaches (sc : Scenario) (step : String) (expect : ParcelExpectation)
    (timeout deadline look : Nat) (run : Run σ) :
    Reaches ws run (run.waitUntil sc step expect timeout deadline look) := by
  have hlook : ∀ (run : Run σ) (n : Nat), Moves ws run { run with looks := n } := fun _ _ =>
    moves_aside rfl rfl rfl
  fun_induction waitUntil sc step expect timeout deadline look run with
  | case1 look run collected reason hhalt =>
      exact (collect_reaches run (some step)).noting (hlook _ _)
  | case2 look run collected hhalt henough =>
      exact .goesOn ((collect_reaches run (some step)).moves.trans (hlook _ _))
  | case3 look run collected hhalt hfew hlate =>
      exact .fails ((collect_reaches run (some step)).moves.trans (hlook _ _)) _
  | case4 look run collected hhalt hfew hearly waited reason hstop =>
      exact .trans (collect_reaches run (some step)).moves
        ((waitNext_reaches ..).noting (hlook _ _))
  | case5 look run collected hhalt hfew hearly waited hgo ih =>
      exact .trans ((collect_reaches run (some step)).moves.trans (waitNext_reaches ..).moves) ih

/-! ## The steps -/

theorem prepare_reaches (sc : Scenario) (run : Run σ) (step : Step) :
    Reaches sc.workspace run (prepare sc run step) := by
  unfold prepare
  split
  · rename_i fixture _
    have hchange : Moves sc.workspace run (run.change sc.workspace fixture) :=
      .single (.change fixture)
    dsimp only
    split
    · exact .goesOn hchange
    · exact .stops .refl (.other (by simp) (by simp)) hchange _
  · rename_i request _
    have hop : Moves sc.workspace run (run.operate
        (.deliver request.capability (requestJson sc.workspace request))) :=
      moves_operate _ _ (by simp)
    have hanswer : (run.bridge.perform run.host
        (.deliver request.capability (requestJson sc.workspace request))).1
        = (run.bridge.deliver run.host request.capability
            (requestJson sc.workspace request)).1.map fun _ => .done := rfl
    simp only [operate, Bridge.perform] at hop
    generalize run.bridge.deliver run.host request.capability
      (requestJson sc.workspace request) = delivered at hop hanswer ⊢
    obtain ⟨answer, bridge⟩ := delivered
    cases answer with
    | ok _ => exact .goesOn (by simpa [BridgeAnswer.taken, Except.map] using hop)
    | error fault =>
        refine .stops .refl (.operation hanswer) ?_ _
        simpa [BridgeAnswer.taken, Except.map] using hop
  · exact .goesOn .refl

theorem Looks.reaches {step : String} {run' : Run σ} {pr : Progress σ} (h : Looks step run' pr)
    (hmoves : Moves ws run run') : Reaches ws run pr := by
  cases h with
  | goesOn => exact .goesOn hmoves
  | fails kind expected actual => exact .fails hmoves _
  | stops fault => exact .stops hmoves (.other (by simp) (by simp)) hmoves _
  | breaksOff hcapture => exact .stops hmoves (.capture hcapture) hmoves _

theorem assert_reaches (sc : Scenario) (run : Run σ) (step : Step) :
    Reaches ws run (assert sc run step) := by
  unfold assert
  split
  · exact waitUntil_reaches ..
  · exact (checkPresence_looks ..).reaches .refl
  · exact (checkState_looks ..).reaches (moves_aside rfl rfl rfl)
  · exact .goesOn .refl

theorem checkStream_reaches (sc : Scenario) (run : Run σ) :
    Reaches ws run (run.checkStream sc) := by
  unfold checkStream
  dsimp only
  split
  · exact .goesOn (idle_moves run)
  · exact .fails (idle_moves run) _

/-! ## The whole run -/

/-- **Runs.** A run is a sequence of moves, whatever stops it. -/
theorem execute_reaches (sc : Scenario) (run : Run σ) :
    Reaches sc.workspace run (execute sc run) := by
  have henter : ∀ (run : Run σ) (phase : Phase), Moves sc.workspace run (run.enter phase) :=
    fun _ _ => moves_aside rfl rfl rfl
  unfold execute
  refine .andThen (.trans (henter run _) (each_reaches (prepare_reaches sc) _ _)) fun run => ?_
  refine .andThen (.trans (henter run _) (collect_reaches _ _)) fun run => ?_
  refine .andThen (.trans (henter run _) (each_reaches (assert_reaches sc) _ _)) fun run => ?_
  refine .andThen (collect_reaches run none) fun run => ?_
  exact .andThen (checkStream_reaches sc run) fun run => .goesOn (henter run .done)

end Run

end Conformance
