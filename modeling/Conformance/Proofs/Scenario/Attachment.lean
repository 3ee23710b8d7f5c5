import Conformance.Proofs.Bridge.Delivery
import Conformance.Scenario.Harness

/-!
# How a scenario comes by its plugin

A source leads to a plugin or to a fault (`Harness.found`), and a plugin
that is found is attached, whatever the source (`startPlugin_eq`). Then
there is a bridge exactly when its start is done (`attach_of_done`,
`attach_of_not_done`).
-/

namespace Conformance.Harness

variable {σ : Type} {hn : Harness σ} {h : Host} {p : Plugin σ} {s : σ}

/-! ## Sources -/

/-- The plugin of a module, with its state. -/
def loaded (hn : Harness σ) (path : Path) : Except HarnessFault (Plugin σ × σ) :=
  (hn.load path).mapError fun reason => .bridge (.load path reason)

/-- The plugin that a source leads to, with its state. -/
def found (hn : Harness σ) (script : Script) : Source σ → Except HarnessFault (Plugin σ × σ)
  | .given p s => .ok (p, s)
  | .library path => hn.loaded path
  | .script =>
    match script.plugin with
    | some path => hn.loaded path
    | none => .error .noPlugin

theorem loadFrom_eq (hn : Harness σ) (h : Host) (path : Path) :
    hn.loadFrom h path = match hn.loaded path with
      | .ok (p, s) => hn.attach h p s
      | .error fault => .error (fault, none) := by
  unfold loadFrom loaded
  cases hn.load path <;> rfl

theorem startPlugin_eq (hn : Harness σ) (h : Host) (script : Script) (source : Source σ) :
    hn.startPlugin h script source = match hn.found script source with
      | .ok (p, s) => hn.attach h p s
      | .error fault => .error (fault, none) := by
  cases source with
  | given p s => rfl
  | library path => exact loadFrom_eq hn h path
  | script =>
      unfold startPlugin found
      cases script.plugin with
      | some path => exact loadFrom_eq hn h path
      | none => rfl

/-- A plugin is not found because nobody names one or its module cannot be
loaded. -/
theorem found_eq_error {script : Script} {source : Source σ} {fault : HarnessFault}
    (hfound : hn.found script source = .error fault) :
    fault = .noPlugin ∨ ∃ path reason, fault = .bridge (.load path reason) := by
  have hload : ∀ path, hn.loaded path = .error fault →
      ∃ path reason, fault = .bridge (.load path reason) := by
    intro path hpath
    cases hl : hn.load path with
    | ok found =>
        rw [loaded, hl] at hpath
        cases hpath
    | error reason =>
        rw [loaded, hl] at hpath
        exact ⟨path, reason, (Except.error.inj hpath).symm⟩
  cases source with
  | given p s => cases hfound
  | library path => exact .inr (hload path hfound)
  | script =>
      unfold found at hfound
      cases hpath : script.plugin with
      | some path => exact .inr (hload path (by simpa [hpath] using hfound))
      | none =>
          simp only [hpath, Except.error.injEq] at hfound
          exact .inl hfound.symm

/-! ## The start -/

/-- The start decides alone whether there is a bridge. -/
theorem attach_eq (hn : Harness σ) (h : Host) (p : Plugin σ) (s : σ) :
    hn.attach h p s
      = match (p.start s h hn.config.settings).outcome.checked "start" with
        | .ok d => .ok ⟨p, (p.start s h hn.config.settings).state, true, d,
            (Channel.bounded hn.config.captureCapacity).takeAll
              (p.start s h hn.config.settings).emissions⟩
        | .error fault => .error (.bridge fault,
            some (p.release (p.start s h hn.config.settings).state h).2) := by
  unfold attach Bridge.attach
  dsimp only
  cases (p.start s h hn.config.settings).outcome.checked "start" <;> rfl

theorem attach_of_done {d : Descriptor}
    (hdone : (p.start s h hn.config.settings).outcome = .done d) :
    hn.attach h p s = .ok ⟨p, (p.start s h hn.config.settings).state, true, d,
      (Channel.bounded hn.config.captureCapacity).takeAll
        (p.start s h hn.config.settings).emissions⟩ := by
  rw [attach_eq, Outcome.checked_eq_ok.mpr hdone]

/-- What is attached has started. -/
theorem attach_started {b : Bridge σ} (hb : hn.attach h p s = .ok b) :
    ∃ d, (p.start s h hn.config.settings).outcome = .done d
      ∧ b = ⟨p, (p.start s h hn.config.settings).state, true, d,
          (Channel.bounded hn.config.captureCapacity).takeAll
            (p.start s h hn.config.settings).emissions⟩ := by
  rw [attach_eq] at hb
  split at hb
  · rename_i d hchecked
    exact ⟨d, Outcome.checked_eq_ok.mp hchecked, (Except.ok.inj hb).symm⟩
  · cases hb

/-- A plugin that does not start is let go. -/
theorem attach_of_not_done (hno : ∀ d, (p.start s h hn.config.settings).outcome ≠ .done d) :
    ∃ fault, hn.attach h p s = .error (.bridge fault,
        some (p.release (p.start s h hn.config.settings).state h).2)
      ∧ fault ≠ .useAfterUnload := by
  rw [attach_eq]
  rcases hstart : (p.start s h hn.config.settings).outcome with d | fault | payload
  · exact absurd hstart (hno d)
  · exact ⟨_, rfl, by simp⟩
  · exact ⟨_, rfl, by simp⟩

/-! ## The scenario -/

/-- What the run of a scenario is given once its plugin is attached. -/
def scenario (hn : Harness σ) (ws : Workspace) (script : Script) (b : Bridge σ) : Scenario :=
  ⟨script, hn.config, hn.clock, ws, ⟨b.descriptor.name, Path.text ws.root⟩⟩

theorem runAttached_eq (hn : Harness σ) (h : Host) (ws : Workspace) (script : Script)
    (b : Bridge σ) :
    hn.runAttached h ws script b
      = conclude script ws (Run.execute (hn.scenario ws script b) ⟨h, b, [], 0, 0, .parse⟩) :=
  rfl

/-- What the steps of a scenario begin with, if it comes to them. -/
def outset (hn : Harness σ) (script : Script) (source : Source σ) : Option (Scenario × Run σ) :=
  match Workspace.create hn.host.files hn.root with
  | .error _ => none
  | .ok (files, ws) =>
    match hn.startPlugin { hn.host with files } script source with
    | .error _ => none
    | .ok b => some (hn.scenario ws script b, ⟨{ hn.host with files }, b, [], 0, 0, .parse⟩)

/-- A scenario is refused, perhaps by a plugin that does not start; or it
runs from its outset to its conclusion. -/
theorem outset_cases (hn : Harness σ) (script : Script) (source : Source σ) :
    (hn.outset script source = none
        ∧ ∃ fault files state,
          hn.run script source = ⟨refusal script.name none fault, files, state⟩
          ∧ (state = none ∨ ∃ p s h, hn.found script source = .ok (p, s)
            ∧ hn.attach h p s = .error (fault, state)))
      ∨ ∃ ws p s h b, hn.found script source = .ok (p, s) ∧ hn.attach h p s = .ok b
        ∧ hn.outset script source
            = some (hn.scenario ws script b, ⟨h, b, [], 0, 0, .parse⟩)
        ∧ hn.run script source
            = conclude script ws
                (Run.execute (hn.scenario ws script b) ⟨h, b, [], 0, 0, .parse⟩) := by
  unfold outset run
  cases Workspace.create hn.host.files hn.root with
  | error fault => exact .inl ⟨rfl, _, _, _, rfl, .inl rfl⟩
  | ok made =>
      obtain ⟨files, ws⟩ := made
      dsimp only
      rw [startPlugin_eq]
      cases hfound : hn.found script source with
      | error fault => exact .inl ⟨rfl, _, _, _, rfl, .inl rfl⟩
      | ok found =>
          obtain ⟨p, s⟩ := found
          dsimp only
          cases hb : hn.attach { hn.host with files } p s with
          | error stopped =>
              exact .inl ⟨rfl, _, _, _, rfl, .inr ⟨p, s, _, rfl, hb⟩⟩
          | ok b => exact .inr ⟨ws, p, s, _, b, rfl, hb, rfl, rfl⟩

end Conformance.Harness
