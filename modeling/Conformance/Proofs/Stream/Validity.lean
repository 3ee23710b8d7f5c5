import Conformance.Parcel.Stream
import Conformance.Proofs.Association

/-!
# The stream validator is exact

The validator keeps only the last sequence of every sender and the
groups that are closed. That is enough: it reports nothing exactly when
all pairs of parcels keep the two rules of a stream, however far apart
the two stand and whatever comes between them (`validate_eq_nil_iff`).

One step carries the proof. Once a parcel is admitted, the next state
admits another parcel exactly when the former state does and the two
parcels go together (`admits_observe_iff`): what the validator forgets
of the former sequence follows by transitivity of the order. No prefix
of the stream has to be remembered, so the run is one induction on the
parcels with the state left general (`violations_eq_nil_iff`).
-/

namespace Conformance

/-! ## The rules of a stream -/

/-- Of any two parcels of one sender the later one has the greater
sequence: a greater major number, or the same and a greater minor one. -/
def SendersRise (parcels : List Parcel) : Prop :=
  ∀ (i j : Nat) (p q : Parcel), i < j → parcels[i]? = some p → parcels[j]? = some q →
    p.sender = q.sender →
      p.sequence.major < q.sequence.major
        ∨ (p.sequence.major = q.sequence.major ∧ p.sequence.minor < q.sequence.minor)

/-- Of any two parcels of one sender and one group the earlier one is
not the last of the group. -/
def GroupsEnd (parcels : List Parcel) : Prop :=
  ∀ (i j : Nat) (p q : Parcel) (g g' : Group), i < j →
    parcels[i]? = some p → parcels[j]? = some q → p.sender = q.sender →
    p.group = some g → q.group = some g' → g.id = g'.id → g.disposition ≠ .last

/-! ## The order of sequences -/

namespace Sequence

theorem before_iff {a b : Sequence} :
    a.before b = true ↔ a.major < b.major ∨ (a.major = b.major ∧ a.minor < b.minor) := by
  simp [before]

theorem before_trans {a b c : Sequence} (hab : a.before b = true)
    (hbc : b.before c = true) : a.before c = true := by
  rw [before_iff] at *
  simp only [UInt64.lt_iff_toNat_lt, ← UInt64.toNat_inj] at *
  omega

end Sequence

/-! ## Two parcels that go together -/

/-- An earlier and a later parcel that break no rule between them. -/
def Parcel.Allows (p q : Parcel) : Prop :=
  (p.sender = q.sender → p.sequence.before q.sequence = true)
    ∧ ∀ g, q.group = some g → p.sender = q.sender → p.group ≠ some ⟨g.id, .last⟩

/-- The rules for all pairs by position are a relation of every parcel
to every later one. -/
theorem rise_and_end_iff_pairwise {parcels : List Parcel} :
    SendersRise parcels ∧ GroupsEnd parcels ↔ parcels.Pairwise Parcel.Allows := by
  rw [List.pairwise_iff_getElem]
  constructor
  · rintro ⟨hrise, hend⟩ i j hi hj hij
    have hp : parcels[i]? = some parcels[i] := List.getElem?_eq_getElem hi
    have hq : parcels[j]? = some parcels[j] := List.getElem?_eq_getElem hj
    refine ⟨fun hs => Sequence.before_iff.mpr (hrise i j _ _ hij hp hq hs), ?_⟩
    intro g hg hs hlast
    exact hend i j _ _ _ g hij hp hq hs hlast hg rfl rfl
  · intro h
    have hpair : ∀ (i j : Nat) (p q : Parcel), i < j → parcels[i]? = some p → parcels[j]? = some q →
        p.Allows q := by
      intro i j p q hij hp hq
      obtain ⟨hi, rfl⟩ := List.getElem?_eq_some_iff.mp hp
      obtain ⟨hj, rfl⟩ := List.getElem?_eq_some_iff.mp hq
      exact h i j hi hj hij
    constructor
    · intro i j p q hij hp hq hs
      exact Sequence.before_iff.mp ((hpair i j p q hij hp hq).1 hs)
    · intro i j p q g g' hij hp hq hs hg hg' hid hlast
      refine (hpair i j p q hij hp hq).2 g' hg' hs ?_
      rw [hg, ← hid, ← hlast]

namespace StreamValidator

/-! ## What one look changes -/

theorem lookup_note (sender : String) (s : Sequence) (key : String) :
    ∀ noted : List (String × Sequence),
      (note sender s noted).lookup key = if key = sender then some s else noted.lookup key
  | [] => by simp [note, Association.lookup_cons]
  | (k, v) :: r => by
      by_cases hk : k = sender
      · subst hk
        by_cases h : key = k <;> simp [note, Association.lookup_cons, h]
      · have ih := lookup_note sender s key r
        by_cases h : key = k
        · simp [note, hk, h]
        · simp [note, hk, Association.lookup_cons, h, ih]

/-- The parcel breaks no rule, as far as the validator remembers. -/
def Admits (v : StreamValidator) (p : Parcel) : Prop :=
  (∀ s, v.lastSequence.lookup p.sender = some s → s.before p.sequence = true)
    ∧ ∀ g, p.group = some g → (⟨p.sender, g.id⟩ : GroupKey) ∉ v.closed

/-- The groups that a parcel closes: its own, if it is the last of it. -/
def closedBy (p : Parcel) : List GroupKey :=
  match p.group with
  | some ⟨id, .last⟩ => [⟨p.sender, id⟩]
  | _ => []

theorem mem_closedBy {p : Parcel} {key : GroupKey} :
    key ∈ closedBy p ↔ p.sender = key.sender ∧ p.group = some ⟨key.id, .last⟩ := by
  obtain ⟨sender, id⟩ := key
  unfold closedBy
  split
  · rename_i id' hg
    simp only [List.mem_singleton, GroupKey.mk.injEq, hg, Option.some.injEq, Group.mk.injEq,
      and_true]
    exact ⟨fun ⟨h, h'⟩ => ⟨h.symm, h'.symm⟩, fun ⟨h, h'⟩ => ⟨h.symm, h'.symm⟩⟩
  · rename_i hne
    refine ⟨fun h => absurd h List.not_mem_nil, fun ⟨_, hg⟩ => absurd hg (hne id)⟩

/-- The look at a group reports nothing exactly when the group is not
closed, and then it closes what the parcel closes. -/
theorem observeGroup_spec (v : StreamValidator) (index : Nat) (p : Parcel) {g : Group}
    (hg : p.group = some g) :
    ((v.observeGroup index p.sender g).2 = none ↔ (⟨p.sender, g.id⟩ : GroupKey) ∉ v.closed)
      ∧ ((⟨p.sender, g.id⟩ : GroupKey) ∉ v.closed →
          (v.observeGroup index p.sender g).1.lastSequence = v.lastSequence
            ∧ (v.observeGroup index p.sender g).1.closed = closedBy p ++ v.closed) := by
  obtain ⟨id, d⟩ := g
  by_cases hmem : (⟨p.sender, id⟩ : GroupKey) ∈ v.closed
  · simp [observeGroup, hmem]
  · cases d <;> simp [observeGroup, hmem, closedBy, hg]

/-- The look at a parcel that is in sequence: it is noted, and then its
group decides. -/
def accept (v : StreamValidator) (p : Parcel) : StreamValidator × Option StreamViolation :=
  let noted := { v with
    observed := v.observed + 1
    lastSequence := note p.sender p.sequence v.lastSequence }
  match p.group with
  | some group => observeGroup noted v.observed p.sender group
  | none => (noted, none)

theorem observe_of_rises {v : StreamValidator} {p : Parcel}
    (h : ∀ s, v.lastSequence.lookup p.sender = some s → s.before p.sequence = true) :
    v.observe p = v.accept p := by
  unfold observe
  cases hprev : v.lastSequence.lookup p.sender with
  | none => rfl
  | some previous => simp only [h previous hprev, ↓reduceIte]; rfl

theorem observe_of_not_rises {v : StreamValidator} {p : Parcel} {s : Sequence}
    (hprev : v.lastSequence.lookup p.sender = some s) (h : s.before p.sequence ≠ true) :
    v.observe p = ({ v with observed := v.observed + 1 },
      some (.sequenceRegression v.observed p.sender s p.sequence)) := by
  simp [observe, hprev, h]

theorem accept_spec (v : StreamValidator) (p : Parcel) :
    ((v.accept p).2 = none ↔
        ∀ g, p.group = some g → (⟨p.sender, g.id⟩ : GroupKey) ∉ v.closed)
      ∧ ((∀ g, p.group = some g → (⟨p.sender, g.id⟩ : GroupKey) ∉ v.closed) →
          (v.accept p).1.lastSequence = note p.sender p.sequence v.lastSequence
            ∧ (v.accept p).1.closed = closedBy p ++ v.closed) := by
  unfold accept
  cases hg : p.group with
  | none => simp [closedBy, hg]
  | some g =>
      simpa only [Option.some.injEq, forall_eq'] using observeGroup_spec _ v.observed p hg

/-- The next parcel is reported exactly when it is not admitted. An
admitted one is noted as the last of its sender and closes its group if
it is the last of it. -/
theorem observe_spec (v : StreamValidator) (p : Parcel) :
    ((v.observe p).2 = none ↔ v.Admits p)
      ∧ (v.Admits p →
          (v.observe p).1.lastSequence = note p.sender p.sequence v.lastSequence
            ∧ (v.observe p).1.closed = closedBy p ++ v.closed) := by
  by_cases h : ∀ s, v.lastSequence.lookup p.sender = some s → s.before p.sequence = true
  · obtain ⟨hnone, hstate⟩ := accept_spec v p
    rw [observe_of_rises h]
    exact ⟨hnone.trans ⟨fun hg => ⟨h, hg⟩, fun hp => hp.2⟩, fun hp => hstate hp.2⟩
  · have hnot : ¬ v.Admits p := fun hp => h hp.1
    obtain ⟨s, hs⟩ := Classical.not_forall.mp h
    obtain ⟨hprev, hs⟩ := Classical.not_imp.mp hs
    rw [observe_of_not_rises hprev hs]
    exact ⟨⟨fun hnone => (Option.some_ne_none _ hnone).elim, fun hp => (hnot hp).elim⟩,
      fun hp => (hnot hp).elim⟩

/-- **The step.** After an admitted parcel the validator admits another
one exactly when it did so before and the two go together. -/
theorem admits_observe_iff {v : StreamValidator} {p : Parcel} (hp : v.Admits p) (q : Parcel) :
    (v.observe p).1.Admits q ↔ v.Admits q ∧ p.Allows q := by
  obtain ⟨hlast, hclosed⟩ := (observe_spec v p).2 hp
  have hrise : (∀ s, (v.observe p).1.lastSequence.lookup q.sender = some s →
        s.before q.sequence = true)
      ↔ (∀ s, v.lastSequence.lookup q.sender = some s → s.before q.sequence = true)
        ∧ (p.sender = q.sender → p.sequence.before q.sequence = true) := by
    rw [hlast, lookup_note]
    by_cases hs : q.sender = p.sender
    · simp only [hs, ↓reduceIte, Option.some.injEq, forall_eq', forall_const]
      -- the former sequence is forgotten, but it comes before the new one
      exact ⟨fun h => ⟨fun s hprev => Sequence.before_trans (hp.1 s hprev) h, h⟩, fun h => h.2⟩
    · simp only [hs, ↓reduceIte, Ne.symm hs, false_implies, and_true]
  have hend : (∀ g, q.group = some g →
        (⟨q.sender, g.id⟩ : GroupKey) ∉ (v.observe p).1.closed)
      ↔ (∀ g, q.group = some g → (⟨q.sender, g.id⟩ : GroupKey) ∉ v.closed)
        ∧ ∀ g, q.group = some g → p.sender = q.sender → p.group ≠ some ⟨g.id, .last⟩ := by
    simp only [hclosed, List.mem_append, mem_closedBy, not_or, not_and]
    exact ⟨fun h => ⟨fun g hg => (h g hg).2, fun g hg => (h g hg).1⟩,
      fun h g hg => ⟨h.2 g hg, h.1 g hg⟩⟩
  simp only [Admits, Parcel.Allows, hrise, hend]
  exact ⟨fun ⟨⟨a, b⟩, c, d⟩ => ⟨⟨a, c⟩, b, d⟩, fun ⟨⟨a, c⟩, b, d⟩ => ⟨⟨a, b⟩, c, d⟩⟩

/-! ## The whole stream -/

/-- From any state, a run reports nothing exactly when every parcel is
admitted by that state and the parcels go together. -/
theorem violations_eq_nil_iff : ∀ (parcels : List Parcel) (v : StreamValidator),
    v.violations parcels = [] ↔
      (∀ p ∈ parcels, v.Admits p) ∧ parcels.Pairwise Parcel.Allows
  | [], v => by simp [violations]
  | p :: r, v => by
      have hstep : v.violations (p :: r) = [] ↔
          v.Admits p ∧ (v.observe p).1.violations r = [] := by
        rw [← (observe_spec v p).1, violations]
        split <;> rename_i h <;> simp [h]
      rw [hstep, List.pairwise_cons, List.forall_mem_cons]
      constructor
      · rintro ⟨hp, hr⟩
        obtain ⟨hall, hpair⟩ := (violations_eq_nil_iff r _).mp hr
        exact ⟨⟨hp, fun q hq => ((admits_observe_iff hp q).mp (hall q hq)).1⟩,
          fun q hq => ((admits_observe_iff hp q).mp (hall q hq)).2, hpair⟩
      · rintro ⟨⟨hp, hr⟩, hallows, hpair⟩
        exact ⟨hp, (violations_eq_nil_iff r _).mpr
          ⟨fun q hq => (admits_observe_iff hp q).mpr ⟨hr q hq, hallows q hq⟩, hpair⟩⟩

theorem admits_empty (p : Parcel) : empty.Admits p := by
  simp [Admits, empty]

/-- A whole stream is without violation exactly when its parcels go
together, each with every later one. -/
theorem validate_eq_nil_iff_pairwise (parcels : List Parcel) :
    validate parcels = [] ↔ parcels.Pairwise Parcel.Allows := by
  rw [validate, violations_eq_nil_iff]
  exact ⟨fun h => h.2, fun h => ⟨fun p _ => admits_empty p, h⟩⟩

/-- **The validator is exact.** It reports nothing about a stream exactly
when sequences rise for every sender and no parcel follows the last one
of its group. -/
theorem validate_eq_nil_iff (parcels : List Parcel) :
    validate parcels = [] ↔ SendersRise parcels ∧ GroupsEnd parcels := by
  rw [validate_eq_nil_iff_pairwise, rise_and_end_iff_pairwise]

end StreamValidator

end Conformance
