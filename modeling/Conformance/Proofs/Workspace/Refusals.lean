import Conformance.Proofs.Workspace.Outside

/-!
# Refused fixtures

A fixture is refused for one of four reasons, and each of them is seen
before anything is done (`Workspace.Refuses`): its path is not contained,
the nearest parent that is there lies outside, the path is a link, or the
target of a new link is not contained. A refusal therefore leaves all
files as they were, and there is one exactly where there is a reason for it
(`Workspace.apply_refused`).

The search for the nearest parent is the only part that could stop early:
its steps are bounded by a number. But a parent has fewer steps than its
path, so it always ends at its answer (`Workspace.confineAncestor_eq`).
-/

namespace Conformance

/-- Whether a fault says that a fixture was refused. -/
def FixtureFault.isRefusal : FixtureFault → Bool
  | .escapes _ | .throughSymlink .. => true
  | _ => false

namespace Workspace

variable {ws : Workspace} {fs : FileSystem} {h : Host} {fixture : Fixture} {action : String}
  {path : Path}

/-! ## The nearest parent -/

/-- What the search among a path and its parents comes upon: the first of
them that is there, or one that cannot be looked at, or nothing. -/
inductive Nearest (fs : FileSystem) : Option Path → Option (Except OsFault Location) → Prop
  | nothing : Nearest fs none none
  | here {up l} (hcanon : fs.canonicalize up = .ok l) : Nearest fs (some up) (some (.ok l))
  | barred {up fault} (hcanon : fs.canonicalize up = .error fault)
    (hfound : fault.isNotFound = false) : Nearest fs (some up) (some (.error fault))
  | above {up fault found} (hcanon : fs.canonicalize up = .error fault)
    (hmissing : fault.isNotFound = true) (h : Nearest fs (Path.parent up) found) :
    Nearest fs (some up) found

/-- What is said of the answer to the search. -/
def judge (ws : Workspace) (action : String) (path : Path) :
    Option (Except OsFault Location) → Except FixtureFault Unit
  | none => .ok ()
  | some (.ok l) => if ws.location.isPrefixOf l then .ok () else .error (.escapes path)
  | some (.error fault) => .error (.io action path fault)

theorem Nearest.unique {q : Option Path} {found found' : Option (Except OsFault Location)}
    (h : Nearest fs q found) (h' : Nearest fs q found') : found' = found := by
  induction h with
  | nothing => cases h'; rfl
  | here hcanon =>
      cases h' with
      | here hcanon' => rw [Except.ok.inj (hcanon.symm.trans hcanon')]
      | barred hcanon' _ | above hcanon' _ _ => cases hcanon.symm.trans hcanon'
  | barred hcanon hfound =>
      cases h' with
      | here hcanon' => cases hcanon.symm.trans hcanon'
      | barred hcanon' _ => rw [Except.error.inj (hcanon.symm.trans hcanon')]
      | above hcanon' hmissing _ =>
          rw [← Except.error.inj (hcanon.symm.trans hcanon'), hfound] at hmissing
          cases hmissing
  | above hcanon hmissing _ ih =>
      cases h' with
      | here hcanon' => cases hcanon.symm.trans hcanon'
      | barred hcanon' hfound =>
          rw [← Except.error.inj (hcanon.symm.trans hcanon'), hmissing] at hfound
          cases hfound
      | above _ _ h' => exact ih h'

theorem canonicalize_nil : fs.canonicalize [] = .error (.system .noEntry) := rfl

theorem nearest_nil : Nearest fs (some []) none :=
  .above canonicalize_nil rfl .nothing

theorem confineAncestor_nil (fuel : Nat) :
    ws.confineAncestor fs action path fuel (some []) = .ok () := by
  cases fuel with
  | zero => rfl
  | succ fuel =>
      rw [confineAncestor, canonicalize_nil]
      cases fuel <;> rfl

/-- Each step of the search goes to a path with fewer steps, so there are
enough of them to come to an answer. -/
theorem confineAncestor_spec : ∀ (fuel : Nat) (up : Path), (Path.steps up).length < fuel →
    ∃ found, Nearest fs (some up) found
      ∧ ws.confineAncestor fs action path fuel (some up) = ws.judge action path found := by
  intro fuel
  induction fuel with
  | zero => exact fun up hfuel => absurd hfuel (Nat.not_lt_zero _)
  | succ fuel ih =>
      intro up hfuel
      rw [confineAncestor]
      cases hcanon : fs.canonicalize up with
      | ok l => exact ⟨_, .here hcanon, rfl⟩
      | error fault =>
          dsimp only
          cases hmissing : fault.isNotFound with
          | false => exact ⟨_, .barred hcanon hmissing, rfl⟩
          | true =>
              rw [if_pos rfl]
              cases hparent : Path.parent up with
              | none =>
                  exact ⟨none, .above hcanon hmissing (hparent ▸ .nothing), by cases fuel <;> rfl⟩
              | some up' =>
                  rcases Path.length_steps_parent hparent with rfl | hless
                  · exact ⟨none, .above hcanon hmissing (hparent ▸ nearest_nil),
                      confineAncestor_nil fuel⟩
                  · obtain ⟨found, hfound, heq⟩ := ih up' (by omega)
                    exact ⟨found, .above hcanon hmissing (hparent ▸ hfound), heq⟩

/-- **The search.** It ends at the nearest parent that is there, if it is
not barred before, and is judged by that. -/
theorem confineAncestor_eq (ws : Workspace) (fs : FileSystem) (action : String) (path : Path) :
    ∃ found, Nearest fs (Path.parent path) found
      ∧ ws.confineAncestor fs action path (path.length + 1) (Path.parent path)
        = ws.judge action path found := by
  cases hparent : Path.parent path with
  | none => exact ⟨none, .nothing, rfl⟩
  | some up =>
      rcases Path.length_steps_parent hparent with rfl | hless
      · exact ⟨none, nearest_nil, confineAncestor_nil _⟩
      · have hlength := Path.length_steps_le path
        exact confineAncestor_spec _ up (by omega)

/-! ## Reasons -/

/-- The nearest parent that is there, if there is any, lies inside. -/
def Inside (ws : Workspace) (found : Option (Except OsFault Location)) : Prop :=
  found = none ∨ ∃ l, found = some (.ok l) ∧ ws.location <+: l

/-- Why a fixture is refused, with the fault that says so. -/
inductive Refuses (ws : Workspace) (h : Host) (fixture : Fixture) : FixtureFault → Prop
  | strayPath (hf : Path.isContained fixture.path = false) :
    Refuses ws h fixture (.escapes (ws.resolve fixture.path))
  | strayParent {l} (hf : Path.isContained fixture.path = true)
    (hnear : Nearest h.files (Path.parent (ws.resolve fixture.path)) (some (.ok l)))
    (hout : ¬ ws.location <+: l) : Refuses ws h fixture (.escapes (ws.resolve fixture.path))
  | link {found s} (hf : Path.isContained fixture.path = true)
    (hnear : Nearest h.files (Path.parent (ws.resolve fixture.path)) found)
    (hin : ws.Inside found) (hlinks : fixture.action.actsOnLinks = false)
    (hs : h.status false (ws.resolve fixture.path) = .ok s) (hlink : s.isLink = true) :
    Refuses ws h fixture (.throughSymlink fixture.action.name (ws.resolve fixture.path))
  | strayTarget {found target} (hf : Path.isContained fixture.path = true)
    (hnear : Nearest h.files (Path.parent (ws.resolve fixture.path)) found)
    (hin : ws.Inside found) (haction : fixture.action = .symlink target)
    (htarget : Path.isContained target = false) : Refuses ws h fixture (.escapes target)

theorem judge_eq_ok {found : Option (Except OsFault Location)} :
    ws.judge action path found = .ok () ↔ ws.Inside found := by
  rcases found with _ | fault | l <;> simp [judge, Inside]

theorem judge_eq_refusal {found : Option (Except OsFault Location)} {fault : FixtureFault}
    (href : fault.isRefusal = true) (h : ws.judge action path found = .error fault) :
    fault = .escapes path ∧ ∃ l, found = some (.ok l) ∧ ¬ ws.location <+: l := by
  rcases found with _ | fault' | l
  · cases h
  · cases h
    cases href
  · rw [judge] at h
    split at h
    · cases h
    · rename_i hout
      cases h
      exact ⟨rfl, l, rfl, by simpa using hout⟩

/-- What confinement does after the search. -/
theorem confine_eq (ws : Workspace) (act : FixtureAction) {found : Option (Except OsFault Location)}
    (hnear : Nearest h.files (Path.parent path) found) :
    ws.confine h act path = match ws.judge act.name path found with
      | .error fault => .error fault
      | .ok () =>
        if act.actsOnLinks then .ok ()
        else
          match h.status false path with
          | .ok s => if s.isLink then .error (.throughSymlink act.name path) else .ok ()
          | .error fault =>
            if fault.isNotFound then .ok () else .error (.io act.name path fault) := by
  obtain ⟨found', hnear', hsearch⟩ := ws.confineAncestor_eq h.files act.name path
  obtain rfl := hnear.unique hnear'
  unfold confine
  rw [hsearch]
  cases ws.judge act.name path found' <;> rfl

theorem confine_ok {act : FixtureAction} (hok : ws.confine h act path = .ok ()) :
    ∃ found, Nearest h.files (Path.parent path) found ∧ ws.Inside found := by
  obtain ⟨found, hnear, -⟩ := ws.confineAncestor_eq h.files act.name path
  rw [ws.confine_eq _ hnear] at hok
  cases hjudge : ws.judge act.name path found with
  | ok u => exact ⟨found, hnear, judge_eq_ok.mp hjudge⟩
  | error fault =>
      rw [hjudge] at hok
      cases hok

/-- Confinement refuses only for a reason. -/
theorem refuses_of_confine {fault : FixtureFault} (href : fault.isRefusal = true)
    (hf : Path.isContained fixture.path = true)
    (hc : ws.confine h fixture.action (ws.resolve fixture.path) = .error fault) :
    ws.Refuses h fixture fault := by
  obtain ⟨found, hnear, -⟩ :=
    ws.confineAncestor_eq h.files fixture.action.name (ws.resolve fixture.path)
  rw [ws.confine_eq _ hnear] at hc
  cases hjudge : ws.judge fixture.action.name (ws.resolve fixture.path) found with
  | error fault' =>
      rw [hjudge] at hc
      cases hc
      obtain ⟨rfl, l, rfl, hout⟩ := judge_eq_refusal href hjudge
      exact .strayParent hf hnear hout
  | ok u =>
      rw [hjudge] at hc
      dsimp only at hc
      split at hc
      · cases hc
      · rename_i hlinks
        split at hc
        · rename_i s hs
          split at hc
          · rename_i hlink
            cases hc
            exact .link hf hnear (judge_eq_ok.mp hjudge) (by simpa using hlinks) hs hlink
          · cases hc
        · split at hc
          · cases hc
          · cases hc
            cases href

/-! ## Refusals -/

theorem strayTarget?_eq_some {act : FixtureAction} {target : Path}
    (h : strayTarget? act = some target) :
    act = .symlink target ∧ Path.isContained target = false := by
  unfold strayTarget? at h
  split at h
  · split at h
    · cases h
    · rename_i htarget
      cases h
      exact ⟨rfl, by simpa using htarget⟩
  · cases h

/-- Where there is a reason the fixture is refused, and nothing changes. -/
theorem Refuses.apply {fault : FixtureFault} (hr : ws.Refuses h fixture fault) :
    ws.apply h fixture = (h.files, some fault) := by
  cases hr with
  | strayPath hf => simp [Workspace.apply, hf]
  | @strayParent l hf hnear hout =>
      have hc := ws.confine_eq fixture.action hnear
      rw [judge, if_neg (by simpa using hout)] at hc
      simp [Workspace.apply, hf, hc]
  | link hf hnear hin hlinks hs hlink =>
      have hc := ws.confine_eq fixture.action hnear
      rw [judge_eq_ok.mpr hin] at hc
      simp [Workspace.apply, hf, hc, hlinks, hs, hlink]
  | strayTarget hf hnear hin haction htarget =>
      have hc := ws.confine_eq fixture.action hnear
      rw [judge_eq_ok.mpr hin, haction] at hc
      simp [Workspace.apply, hf, hc, haction, FixtureAction.actsOnLinks, strayTarget?, htarget]

theorem refuses_of_apply {fault : FixtureFault} (href : fault.isRefusal = true)
    (h' : (ws.apply h fixture).2 = some fault) : ws.Refuses h fixture fault := by
  unfold apply at h'
  dsimp only at h'
  split at h'
  · rename_i hf
    cases h'
    exact .strayPath (by simpa using hf)
  · rename_i hf
    have hf : Path.isContained fixture.path = true := by simpa using hf
    split at h'
    · rename_i fault' hc
      cases h'
      exact refuses_of_confine href hf hc
    · rename_i hc
      split at h'
      · rename_i target hstray
        cases h'
        obtain ⟨found, hnear, hin⟩ := confine_ok hc
        obtain ⟨haction, htarget⟩ := strayTarget?_eq_some hstray
        exact .strayTarget hf hnear hin haction htarget
      · -- What stops an action is no refusal.
        obtain ⟨fault', -, rfl⟩ := Option.map_eq_some_iff.mp h'
        cases href

/-- **Refusals.** A fixture is refused exactly where there is a reason for
it, and then all files are as they were. -/
theorem apply_refused {fault : FixtureFault} (href : fault.isRefusal = true) :
    ((ws.apply h fixture).2 = some fault ↔ ws.Refuses h fixture fault)
      ∧ ((ws.apply h fixture).2 = some fault → (ws.apply h fixture).1 = h.files) := by
  refine ⟨⟨refuses_of_apply href, fun hr => by rw [hr.apply]⟩, fun h' => ?_⟩
  rw [(refuses_of_apply href h').apply]

/-- A file in a missing directory behind a link that leads out: the
directory is not made either. -/
theorem apply_refused_linkedOut :
    let fixture : Fixture := ⟨Path.ofText "l/x/f", .create [] none⟩
    let fault : FixtureFault := .escapes (Path.ofText "/w/l/x/f")
    fault.isRefusal = true
      ∧ (LinkedOut.workspace.apply LinkedOut.host fixture).2 = some fault
      ∧ (LinkedOut.workspace.apply LinkedOut.host fixture).1 = LinkedOut.host.files
      ∧ LinkedOut.workspace.Refuses LinkedOut.host fixture fault := by
  intro fixture fault
  have hfault : (LinkedOut.workspace.apply LinkedOut.host fixture).2 = some fault := by cbv
  obtain ⟨hreason, hsame⟩ :=
    @apply_refused LinkedOut.workspace LinkedOut.host fixture fault rfl
  exact ⟨rfl, hfault, hsame hfault, hreason.mp hfault⟩

end Workspace

end Conformance
