import Conformance.Proofs.Stream.Groups

/-!
# What the validator reports

After some parcels the validator remembers two things of them
(`Remembers`): the greatest sequence of every sender, and the groups that
have a last parcel which was in sequence. A parcel that is late, so not
above that greatest sequence, is reported for it and changes neither; any
other one is noted, also if it is reported for its group.

With that, whether a parcel is reported and how is a matter of the parcels
before it alone (`mem_validate_iff`). Two laws are read off from it. Every
late parcel is reported, with the greatest sequence of its sender
(`validate_regressions`). A parcel behind the last one of its group is
reported unless that one was late itself: then the group was never closed
(`reported_behind_last_iff`).
-/

namespace Conformance

namespace Sequence

/-- One place is another, or comes before it. -/
def AtMost (a b : Sequence) : Prop :=
  a.major < b.major ∨ (a.major = b.major ∧ a.minor ≤ b.minor)

theorem not_before_iff {a b : Sequence} : ¬ a.before b = true ↔ b.AtMost a := by
  rw [before_iff, AtMost]
  simp only [UInt64.lt_iff_toNat_lt, UInt64.le_iff_toNat_le, ← UInt64.toNat_inj]
  omega

theorem AtMost.refl (a : Sequence) : a.AtMost a :=
  .inr ⟨rfl, UInt64.le_refl _⟩

theorem AtMost.trans {a b c : Sequence} (hab : a.AtMost b) (hbc : b.AtMost c) : a.AtMost c := by
  simp only [AtMost, UInt64.lt_iff_toNat_lt, UInt64.le_iff_toNat_le, ← UInt64.toNat_inj] at *
  omega

theorem AtMost.antisymm {a b : Sequence} (hab : a.AtMost b) (hba : b.AtMost a) : a = b := by
  obtain ⟨major, minor⟩ := a
  obtain ⟨major', minor'⟩ := b
  simp only [AtMost, UInt64.lt_iff_toNat_lt, UInt64.le_iff_toNat_le, ← UInt64.toNat_inj] at hab hba
  rw [mk.injEq, ← UInt64.toNat_inj, ← UInt64.toNat_inj]
  omega

theorem AtMost.of_before {a b : Sequence} (h : a.before b = true) : a.AtMost b := by
  rw [before_iff] at h
  simp only [AtMost, UInt64.lt_iff_toNat_lt, UInt64.le_iff_toNat_le, ← UInt64.toNat_inj] at *
  omega

end Sequence

/-! ## Parcels among earlier ones -/

/-- An earlier parcel of the same sender has the same sequence or a
greater one. -/
def Parcel.Late (p : Parcel) (earlier : List Parcel) : Prop :=
  ∃ q ∈ earlier, q.sender = p.sender ∧ p.sequence.AtMost q.sequence

/-- The greatest sequence among the parcels of a sender. -/
structure Greatest (parcels : List Parcel) (sender : String) (s : Sequence) : Prop where
  attained : ∃ q ∈ parcels, q.sender = sender ∧ q.sequence = s
  bound : ∀ q ∈ parcels, q.sender = sender → q.sequence.AtMost s

/-- A group has a last parcel that was not late. -/
def GroupKey.EndedIn (key : GroupKey) (parcels : List Parcel) : Prop :=
  ∃ (k : Nat) (p : Parcel), parcels[k]? = some p ∧ p.Joins key .last ∧ ¬ p.Late (parcels.take k)

theorem ended_concat {parcels : List Parcel} {p : Parcel} {key : GroupKey} :
    key.EndedIn (parcels ++ [p]) ↔ key.EndedIn parcels ∨ (p.Joins key .last ∧ ¬ p.Late parcels) := by
  constructor
  · rintro ⟨k, q, hq, hlast, hrises⟩
    rcases Nat.lt_or_ge k parcels.length with hk | hk
    · rw [List.getElem?_append_left hk] at hq
      rw [List.take_append_of_le_length (Nat.le_of_lt hk)] at hrises
      exact .inl ⟨k, q, hq, hlast, hrises⟩
    · rw [List.getElem?_append_right hk, List.getElem?_singleton] at hq
      split at hq
      · rename_i hzero
        obtain rfl : k = parcels.length := by omega
        cases hq
        rw [List.take_left] at hrises
        exact .inr ⟨hlast, hrises⟩
      · cases hq
  · rintro (⟨k, q, hq, hlast, hrises⟩ | ⟨hlast, hrises⟩)
    · have hk : k < parcels.length := (List.getElem?_eq_some_iff.mp hq).1
      refine ⟨k, q, ?_, hlast, ?_⟩
      · rw [List.getElem?_append_left hk, hq]
      · rwa [List.take_append_of_le_length (Nat.le_of_lt hk)]
    · refine ⟨parcels.length, p, ?_, hlast, ?_⟩
      · simp
      · rwa [List.take_left]

theorem Greatest.unique {parcels : List Parcel} {sender : String} {s s' : Sequence}
    (h : Greatest parcels sender s) (h' : Greatest parcels sender s') : s' = s := by
  obtain ⟨⟨q, hq, hs, rfl⟩, hbound⟩ := h
  obtain ⟨⟨q', hq', hs', rfl⟩, hbound'⟩ := h'
  exact (hbound q' hq' hs').antisymm (hbound' q hq hs)

/-- The greatest sequence of a sender stays what it is, unless a parcel of
that sender is above it. -/
theorem Greatest.concat {parcels : List Parcel} {sender : String} {s : Sequence} {p : Parcel}
    (h : Greatest parcels sender s) (hp : p.sender = sender → p.sequence.AtMost s) :
    Greatest (parcels ++ [p]) sender s := by
  obtain ⟨⟨q, hq, hs, rfl⟩, hbound⟩ := h
  refine ⟨⟨q, List.mem_append_left _ hq, hs, rfl⟩, fun r hr hsender => ?_⟩
  rcases List.mem_append.mp hr with hr | hr
  · exact hbound r hr hsender
  · obtain rfl := List.mem_singleton.mp hr
    exact hp hsender

/-- A parcel that is not late has the greatest sequence of its sender. -/
theorem greatest_concat_self {parcels : List Parcel} {p : Parcel} (h : ¬ p.Late parcels) :
    Greatest (parcels ++ [p]) p.sender p.sequence := by
  refine ⟨⟨p, by simp, rfl, rfl⟩, fun q hq hs => ?_⟩
  rcases List.mem_append.mp hq with hq | hq
  · refine .of_before (Classical.not_not.mp fun hnot => h ⟨q, hq, hs, ?_⟩)
    exact Sequence.not_before_iff.mp hnot
  · obtain rfl := List.mem_singleton.mp hq
    exact .refl _

/-- What is reported of a parcel behind these parcels. -/
inductive Faulty (parcels : List Parcel) (p : Parcel) : StreamViolation → Prop
  | regression {s} (hs : Greatest parcels p.sender s) (hlate : p.sequence.AtMost s) :
    Faulty parcels p (.sequenceRegression parcels.length p.sender s p.sequence)
  | behindLast {g} (hrises : ¬ p.Late parcels) (hg : p.group = some g)
    (hended : (⟨p.sender, g.id⟩ : GroupKey).EndedIn parcels) :
    Faulty parcels p (.groupAfterLast parcels.length p.sender g.id)

/-- The place of arrival of the parcel that breaks a rule. -/
def StreamViolation.index : StreamViolation → Nat
  | .sequenceRegression index .. => index
  | .groupAfterLast index .. => index

theorem faulty_regression_iff {parcels : List Parcel} {p : Parcel} {index : Nat} {sender : String}
    {previous current : Sequence} :
    Faulty parcels p (.sequenceRegression index sender previous current)
      ↔ index = parcels.length ∧ p.sequence.AtMost previous ∧ sender = p.sender
        ∧ current = p.sequence ∧ Greatest parcels p.sender previous := by
  constructor
  · rintro (⟨hs, hle⟩ | _)
    exact ⟨rfl, hle, rfl, rfl, hs⟩
  · rintro ⟨rfl, hle, rfl, rfl, hs⟩
    exact .regression hs hle

theorem Faulty.index {parcels : List Parcel} {p : Parcel} {violation : StreamViolation}
    (h : Faulty parcels p violation) : violation.index = parcels.length := by
  cases h <;> rfl

namespace StreamValidator

/-! ## One look -/

/-- All that a look at a parcel can do: the state behind it, and what is
reported. -/
inductive Look (v : StreamValidator) (p : Parcel) :
    StreamValidator → Option StreamViolation → Prop
  | late {s} (hprev : v.lastSequence.lookup p.sender = some s) (hlate : p.sequence.AtMost s) :
    Look v p { v with observed := v.observed + 1 }
      (some (.sequenceRegression v.observed p.sender s p.sequence))
  | closed {g} (hrises : ∀ s, v.lastSequence.lookup p.sender = some s → s.before p.sequence = true)
    (hg : p.group = some g) (hclosed : (⟨p.sender, g.id⟩ : GroupKey) ∈ v.closed) :
    Look v p { v with
        observed := v.observed + 1
        lastSequence := note p.sender p.sequence v.lastSequence }
      (some (.groupAfterLast v.observed p.sender g.id))
  | admitted {v'} (hadmits : v.Admits p) (hobserved : v'.observed = v.observed + 1)
    (hlast : v'.lastSequence = note p.sender p.sequence v.lastSequence)
    (hclosed : v'.closed = closedBy p ++ v.closed) : Look v p v' none

theorem observed_accept (v : StreamValidator) (p : Parcel) :
    (v.accept p).1.observed = v.observed + 1 := by
  unfold accept
  cases p.group with
  | none => rfl
  | some g =>
      dsimp only
      unfold observeGroup
      dsimp only
      split
      · rfl
      · split <;> rfl

theorem look (v : StreamValidator) (p : Parcel) : Look v p (v.observe p).1 (v.observe p).2 := by
  by_cases hrises : ∀ s, v.lastSequence.lookup p.sender = some s → s.before p.sequence = true
  · by_cases hopen : ∀ g, p.group = some g → (⟨p.sender, g.id⟩ : GroupKey) ∉ v.closed
    · obtain ⟨hnone, hstate⟩ := observe_spec v p
      obtain ⟨hlast, hclosed⟩ := hstate ⟨hrises, hopen⟩
      rw [hnone.mpr ⟨hrises, hopen⟩]
      refine .admitted ⟨hrises, hopen⟩ ?_ hlast hclosed
      rw [observe_of_rises hrises, observed_accept]
    · obtain ⟨g, hg⟩ := Classical.not_forall.mp hopen
      obtain ⟨hg, hclosed⟩ := Classical.not_imp.mp hg
      have hclosed := Classical.not_not.mp hclosed
      have hobs : v.observe p = ({ v with
          observed := v.observed + 1
          lastSequence := note p.sender p.sequence v.lastSequence },
          some (.groupAfterLast v.observed p.sender g.id)) := by
        rw [observe_of_rises hrises]
        simp [accept, hg, observeGroup, hclosed]
      rw [hobs]
      exact .closed hrises hg hclosed
  · obtain ⟨s, hs⟩ := Classical.not_forall.mp hrises
    obtain ⟨hprev, hs⟩ := Classical.not_imp.mp hs
    rw [observe_of_not_rises hprev hs]
    exact .late hprev (Sequence.not_before_iff.mp hs)

/-! ## What is remembered -/

/-- What the validator knows after these parcels. -/
structure Remembers (parcels : List Parcel) (v : StreamValidator) : Prop where
  count : v.observed = parcels.length
  unknown : ∀ sender, v.lastSequence.lookup sender = none → ∀ q ∈ parcels, q.sender ≠ sender
  greatest : ∀ sender s, v.lastSequence.lookup sender = some s → Greatest parcels sender s
  closed : ∀ key, key ∈ v.closed ↔ key.EndedIn parcels

theorem remembers_empty : Remembers [] empty where
  count := rfl
  unknown := by simp
  greatest := by simp [empty]
  closed key := by simp [empty, GroupKey.EndedIn]

namespace Remembers

variable {parcels : List Parcel} {v : StreamValidator} {p : Parcel}

/-- A late parcel is known by the sequence that the validator has noted. -/
theorem late_iff (h : Remembers parcels v) (p : Parcel) :
    p.Late parcels ↔ ∃ s, v.lastSequence.lookup p.sender = some s ∧ p.sequence.AtMost s := by
  constructor
  · rintro ⟨q, hq, hs, hle⟩
    cases hprev : v.lastSequence.lookup p.sender with
    | none => exact absurd hs (h.unknown _ hprev q hq)
    | some s => exact ⟨s, rfl, hle.trans ((h.greatest _ s hprev).bound q hq hs)⟩
  · rintro ⟨s, hprev, hle⟩
    obtain ⟨⟨q, hq, hs, rfl⟩, -⟩ := h.greatest _ s hprev
    exact ⟨q, hq, hs, hle⟩

theorem not_late_iff (h : Remembers parcels v) (p : Parcel) :
    ¬ p.Late parcels ↔
      ∀ s, v.lastSequence.lookup p.sender = some s → s.before p.sequence = true := by
  rw [h.late_iff]
  constructor
  · intro hno s hprev
    refine Classical.not_not.mp fun hnot => hno ⟨s, hprev, ?_⟩
    exact Sequence.not_before_iff.mp hnot
  · rintro hrises ⟨s, hprev, hle⟩
    exact Sequence.not_before_iff.mpr hle (hrises s hprev)

/-- What the validator has noted of the sequences stays right when a
parcel that is not late is noted as well. -/
theorem noted (h : Remembers parcels v) (hrises : ¬ p.Late parcels) (sender : String) :
    ((note p.sender p.sequence v.lastSequence).lookup sender = none →
        ∀ q ∈ parcels ++ [p], q.sender ≠ sender)
      ∧ ∀ s, (note p.sender p.sequence v.lastSequence).lookup sender = some s →
          Greatest (parcels ++ [p]) sender s := by
  rw [lookup_note]
  by_cases hs : sender = p.sender
  · subst hs
    simp only [↓reduceIte, reduceCtorEq, false_implies, Option.some.injEq, true_and]
    rintro s rfl
    exact greatest_concat_self hrises
  · rw [if_neg hs]
    constructor
    · intro hnone q hq
      rcases List.mem_append.mp hq with hq | hq
      · exact h.unknown sender hnone q hq
      · obtain rfl := List.mem_singleton.mp hq
        exact Ne.symm hs
    · intro s hprev
      exact (h.greatest sender s hprev).concat fun heq => absurd heq.symm hs

/-- **The step.** The validator remembers the next parcel as well. -/
theorem observe (h : Remembers parcels v) (p : Parcel) :
    Remembers (parcels ++ [p]) (v.observe p).1 := by
  have hlook := look v p
  generalize (v.observe p).1 = v' at hlook ⊢
  generalize (v.observe p).2 = reported at hlook
  cases hlook with
  | @late s hprev hle =>
      have hlate : p.Late parcels := (h.late_iff p).mpr ⟨s, hprev, hle⟩
      refine ⟨by simp [h.count], fun sender hnone q hq => ?_, fun sender s' hs' => ?_, fun key => ?_⟩
      · rcases List.mem_append.mp hq with hq | hq
        · exact h.unknown sender hnone q hq
        · obtain rfl := List.mem_singleton.mp hq
          rintro rfl
          rw [hprev] at hnone
          cases hnone
      · refine (h.greatest sender s' hs').concat ?_
        rintro rfl
        obtain rfl := Option.some.inj (hprev.symm.trans hs')
        exact hle
      · -- A late parcel closes nothing, also if it is the last of its group.
        rw [h.closed key, ended_concat]
        constructor
        · exact .inl
        · rintro (hended | ⟨-, hrises⟩)
          · exact hended
          · exact absurd hlate hrises
  | @closed g hrises hg hclosed =>
      have hnot := (h.not_late_iff p).mpr hrises
      refine ⟨by simp [h.count], fun sender => (h.noted hnot sender).1,
        fun sender => (h.noted hnot sender).2, fun key => ?_⟩
      rw [h.closed key, ended_concat]
      constructor
      · exact .inl
      · rintro (hended | ⟨hlast, -⟩)
        · exact hended
        · obtain ⟨rfl, -⟩ := (Parcel.joins_iff hg).mp hlast
          exact (h.closed _).mp hclosed
  | admitted hadmits hobserved hlast hclosed =>
      have hnot := (h.not_late_iff p).mpr hadmits.1
      refine ⟨by simp [hobserved, h.count], fun sender => ?_, fun sender => ?_, fun key => ?_⟩
      · rw [hlast]
        exact (h.noted hnot sender).1
      · rw [hlast]
        exact (h.noted hnot sender).2
      · rw [hclosed, List.mem_append, mem_closedBy, h.closed key, ended_concat, or_comm]
        exact or_congr_right ⟨fun hjoins => ⟨hjoins, hnot⟩, And.left⟩

theorem observeAll (h : Remembers parcels v) (more : List Parcel) :
    Remembers (parcels ++ more) (v.observeAll more) := by
  induction more generalizing parcels v with
  | nil => simpa using h
  | cons p r ih =>
      have hrest := ih (h.observe p)
      rwa [List.append_assoc] at hrest

/-- **Reports.** What is reported of the next parcel is what is wrong with
it behind the parcels so far. -/
theorem reports_iff (h : Remembers parcels v) {violation : StreamViolation} :
    (v.observe p).2 = some violation ↔ Faulty parcels p violation := by
  have hlook := look v p
  generalize (v.observe p).1 = v' at hlook
  generalize (v.observe p).2 = reported at hlook ⊢
  cases hlook with
  | @late s hprev hle =>
      have hs := h.greatest _ s hprev
      have hlate : p.Late parcels := (h.late_iff p).mpr ⟨s, hprev, hle⟩
      rw [h.count, Option.some.injEq]
      constructor
      · rintro rfl
        exact .regression hs hle
      · intro hfaulty
        cases hfaulty with
        | regression hs' _ => rw [hs.unique hs']
        | behindLast hrises _ _ => exact absurd hlate hrises
  | @closed g hrises hg hclosed =>
      have hnot := (h.not_late_iff p).mpr hrises
      rw [h.count, Option.some.injEq]
      constructor
      · rintro rfl
        exact .behindLast hnot hg ((h.closed _).mp hclosed)
      · intro hfaulty
        cases hfaulty with
        | regression hs' hle =>
            obtain ⟨⟨q, hq, hs, rfl⟩, -⟩ := hs'
            exact absurd ⟨q, hq, hs, hle⟩ hnot
        | behindLast _ hg' _ =>
            obtain rfl := Option.some.inj (hg.symm.trans hg')
            rfl
  | admitted hadmits _ _ _ =>
      have hnot := (h.not_late_iff p).mpr hadmits.1
      constructor
      · rintro ⟨⟩
      · intro hfaulty
        cases hfaulty with
        | regression hs' hle =>
            obtain ⟨⟨q, hq, hs, rfl⟩, -⟩ := hs'
            exact absurd ⟨q, hq, hs, hle⟩ hnot
        | behindLast _ hg hended => exact absurd ((h.closed _).mpr hended) (hadmits.2 _ hg)

end Remembers

/-! ## The whole stream -/

/-- What is reported of a stream is reported of one of its parcels, in the
state after those before it. -/
theorem mem_violations_iff (violation : StreamViolation) : ∀ (parcels : List Parcel)
    (v : StreamValidator), violation ∈ v.violations parcels ↔ ∃ i p, parcels[i]? = some p
      ∧ ((v.observeAll (parcels.take i)).observe p).2 = some violation
  | [], v => by simp [violations]
  | q :: r, v => by
      have ih := mem_violations_iff violation r (v.observe q).1
      have hcons : violation ∈ v.violations (q :: r) ↔
          (v.observe q).2 = some violation ∨ violation ∈ (v.observe q).1.violations r := by
        rw [violations]
        split <;> rename_i hobs <;> simp [hobs, eq_comm]
      rw [hcons, ih]
      constructor
      · rintro (hq | ⟨i, p, hp, hreport⟩)
        · exact ⟨0, q, rfl, hq⟩
        · exact ⟨i + 1, p, hp, hreport⟩
      · rintro ⟨i, p, hp, hreport⟩
        cases i with
        | zero =>
            obtain rfl := Option.some.inj hp
            exact .inl hreport
        | succ i => exact .inr ⟨i, p, hp, hreport⟩

/-- **The reports.** They are what is wrong with each parcel behind those
that arrived before it. -/
theorem mem_validate_iff {parcels : List Parcel} {violation : StreamViolation} :
    violation ∈ validate parcels ↔
      ∃ i p, parcels[i]? = some p ∧ Faulty (parcels.take i) p violation := by
  have hremembers : ∀ i, Remembers (parcels.take i) (empty.observeAll (parcels.take i)) := by
    intro i
    exact remembers_empty.observeAll (parcels.take i)
  rw [validate, mem_violations_iff]
  constructor
  · rintro ⟨i, p, hp, hreport⟩
    exact ⟨i, p, hp, (hremembers i).reports_iff.mp hreport⟩
  · rintro ⟨i, p, hp, hfaulty⟩
    exact ⟨i, p, hp, (hremembers i).reports_iff.mpr hfaulty⟩

/-- A report is about the parcel at its index. -/
theorem mem_validate_at {parcels : List Parcel} {violation : StreamViolation} {i : Nat} :
    violation ∈ validate parcels ∧ violation.index = i ↔
      ∃ p, parcels[i]? = some p ∧ Faulty (parcels.take i) p violation := by
  have hindex : ∀ {k p}, parcels[k]? = some p → Faulty (parcels.take k) p violation →
      violation.index = k := by
    intro k p hp hfaulty
    have hk : k < parcels.length := (List.getElem?_eq_some_iff.mp hp).1
    rw [hfaulty.index, List.length_take]
    omega
  rw [mem_validate_iff]
  constructor
  · rintro ⟨⟨k, p, hp, hfaulty⟩, rfl⟩
    rw [hindex hp hfaulty]
    exact ⟨p, hp, hfaulty⟩
  · rintro ⟨p, hp, hfaulty⟩
    exact ⟨⟨i, p, hp, hfaulty⟩, hindex hp hfaulty⟩

/-- Reports come in the order of the parcels, one for each at most. -/
theorem violations_ordered : ∀ (parcels : List Parcel) (v : StreamValidator),
    ((v.violations parcels).map StreamViolation.index).Pairwise (· < ·)
      ∧ ∀ violation ∈ v.violations parcels, v.observed ≤ violation.index
  | [], v => by simp [violations]
  | p :: r, v => by
      obtain ⟨hrest, hfrom⟩ := violations_ordered r (v.observe p).1
      have hlook := look v p
      rw [violations]
      generalize v.observe p = looked at hlook hrest hfrom ⊢
      obtain ⟨v', reported⟩ := looked
      dsimp only at hlook hrest hfrom ⊢
      have hnext : v'.observed = v.observed + 1 := by
        cases hlook with
        | late | closed => rfl
        | admitted _ hobserved => exact hobserved
      cases reported with
      | none =>
          refine ⟨hrest, fun violation hmem => ?_⟩
          have hle := hfrom violation hmem
          omega
      | some violation =>
          have hhere : violation.index = v.observed := by
            cases hlook <;> rfl
          simp only [List.map_cons, List.pairwise_cons, List.forall_mem_cons, List.mem_map]
          refine ⟨⟨?_, hrest⟩, Nat.le_of_eq hhere.symm, fun violation' hmem => ?_⟩
          · rintro _ ⟨violation', hmem, rfl⟩
            have hle := hfrom violation' hmem
            omega
          · have hle := hfrom violation' hmem
            omega

/-! ## Sequences that do not rise -/

/-- A parcel is late when it is not above the greatest sequence of its
sender. -/
theorem exists_regression_iff {parcels : List Parcel} {p : Parcel} :
    (∃ s, Greatest parcels p.sender s ∧ p.sequence.AtMost s) ↔ p.Late parcels := by
  constructor
  · rintro ⟨s, ⟨⟨q, hq, hs, rfl⟩, -⟩, hle⟩
    exact ⟨q, hq, hs, hle⟩
  · intro hlate
    have hremembers := remembers_empty.observeAll parcels
    obtain ⟨s, hprev, hle⟩ := (hremembers.late_iff p).mp hlate
    exact ⟨s, hremembers.greatest _ s hprev, hle⟩

/-- **Regressions.** A parcel is reported for its sequence exactly when an
earlier one of its sender is not below it. The report holds that sequence,
and the greatest one among all earlier parcels of the sender, those that
were reported included. There is one report for a parcel at most, and the
indices rise. -/
theorem validate_regressions (parcels : List Parcel) :
    (∀ i, (∃ sender previous current,
          .sequenceRegression i sender previous current ∈ validate parcels)
        ↔ ∃ p, parcels[i]? = some p ∧ p.Late (parcels.take i))
      ∧ (∀ i sender previous current,
          .sequenceRegression i sender previous current ∈ validate parcels
            ↔ ∃ p, parcels[i]? = some p ∧ p.sequence.AtMost previous ∧ sender = p.sender
              ∧ current = p.sequence ∧ Greatest (parcels.take i) p.sender previous)
      ∧ ((validate parcels).map StreamViolation.index).Pairwise (· < ·) := by
  have hreport : ∀ i sender previous current,
      .sequenceRegression i sender previous current ∈ validate parcels
        ↔ ∃ p, parcels[i]? = some p ∧ p.sequence.AtMost previous ∧ sender = p.sender
          ∧ current = p.sequence ∧ Greatest (parcels.take i) p.sender previous := by
    intro i sender previous current
    have hat := @mem_validate_at parcels (.sequenceRegression i sender previous current) i
    simp only [StreamViolation.index, and_true, faulty_regression_iff] at hat
    rw [hat]
    constructor
    · rintro ⟨p, hp, -, hrest⟩
      exact ⟨p, hp, hrest⟩
    · rintro ⟨p, hp, hrest⟩
      have hi : i < parcels.length := (List.getElem?_eq_some_iff.mp hp).1
      exact ⟨p, hp, by rw [List.length_take]; omega, hrest⟩
  refine ⟨fun i => ?_, hreport, (violations_ordered parcels empty).1⟩
  constructor
  · rintro ⟨sender, previous, current, hmem⟩
    obtain ⟨p, hp, hle, -, -, hs⟩ := (hreport i sender previous current).mp hmem
    exact ⟨p, hp, exists_regression_iff.mp ⟨previous, hs, hle⟩⟩
  · rintro ⟨p, hp, hlate⟩
    obtain ⟨s, hs, hle⟩ := exists_regression_iff.mpr hlate
    exact ⟨p.sender, s, p.sequence, (hreport i _ _ _).mpr ⟨p, hp, hle, rfl, rfl, hs⟩⟩

/-! ## Parcels behind the last of their group -/

theorem ended_take_iff {parcels : List Parcel} {j : Nat} {key : GroupKey} :
    key.EndedIn (parcels.take j) ↔ ∃ (k : Nat) (r : Parcel), k < j ∧ parcels[k]? = some r
      ∧ r.Joins key .last ∧ ¬ r.Late (parcels.take k) := by
  constructor
  · rintro ⟨k, r, hr, hlast, hrises⟩
    rw [List.getElem?_take] at hr
    split at hr
    · rename_i hk
      rw [List.take_take, Nat.min_eq_left (Nat.le_of_lt hk)] at hrises
      exact ⟨k, r, hk, hr, hlast, hrises⟩
    · cases hr
  · rintro ⟨k, r, hk, hr, hlast, hrises⟩
    refine ⟨k, r, by rw [List.getElem?_take, if_pos hk, hr], hlast, ?_⟩
    rwa [List.take_take, Nat.min_eq_left (Nat.le_of_lt hk)]

/-- A parcel is reported if it is late, or if its group has ended. -/
theorem exists_faulty_iff {parcels : List Parcel} {p : Parcel} {key : GroupKey}
    {disposition : Disposition} (hjoins : p.Joins key disposition) :
    (∃ violation, Faulty parcels p violation) ↔ p.Late parcels ∨ key.EndedIn parcels := by
  obtain ⟨hs, hg⟩ := hjoins
  constructor
  · rintro ⟨violation, ⟨hs, hle⟩ | ⟨hrises, hg', hended⟩⟩
    · exact .inl (exists_regression_iff.mp ⟨_, hs, hle⟩)
    · obtain rfl := Option.some.inj (hg.symm.trans hg')
      rw [hs] at hended
      exact .inr hended
  · intro h
    by_cases hlate : p.Late parcels
    · obtain ⟨s, hs, hle⟩ := exists_regression_iff.mpr hlate
      exact ⟨_, .regression hs hle⟩
    · have hended := h.resolve_left hlate
      exact ⟨_, .behindLast hlate hg (by rw [hs]; exact hended)⟩

/-- **Behind the last.** Of a parcel that follows a last one of its group
there is a report exactly when that last one was not late itself, or the
parcel is late, or another last one of the group before it was not. -/
theorem reported_behind_last_iff {parcels : List Parcel} {i j : Nat} {p q : Parcel}
    {key : GroupKey} {disposition : Disposition} (hij : i < j) (hp : parcels[i]? = some p)
    (hlast : p.Joins key .last) (hq : parcels[j]? = some q) (hjoins : q.Joins key disposition) :
    (∃ violation ∈ validate parcels, violation.index = j)
      ↔ ¬ p.Late (parcels.take i) ∨ q.Late (parcels.take j)
        ∨ ∃ (k : Nat) (r : Parcel), k < j ∧ parcels[k]? = some r ∧ r.Joins key .last
          ∧ ¬ r.Late (parcels.take k) := by
  have hreport : (∃ violation ∈ validate parcels, violation.index = j)
      ↔ q.Late (parcels.take j) ∨ key.EndedIn (parcels.take j) := by
    rw [← exists_faulty_iff hjoins]
    refine exists_congr fun violation => mem_validate_at.trans ?_
    rw [hq]
    simp
  rw [hreport, ended_take_iff]
  constructor
  · exact .inr
  · rintro (hrises | h)
    · exact .inr ⟨i, p, hij, hp, hlast, hrises⟩
    · exact h

/-- A parcel of a sender, to show what a stream leads to. -/
def sample (major : UInt64) (group : Option Group) : Parcel where
  time := ⟨0, 0⟩
  sender := "a"
  recipient := "host"
  type := "file-state"
  compression := .none
  sequence := ⟨major, 0⟩
  group := group
  payload := []

/-- Of two last parcels of a group the first one is late. What follows the
second is reported. -/
theorem reported_behind_last_iff_again :
    let late := sample 1 (some ⟨7, .last⟩)
    let again := sample 3 (some ⟨7, .last⟩)
    let behind := sample 4 (some ⟨7, .part⟩)
    let parcels := [sample 2 none, late, again, behind]
    1 < 3 ∧ parcels[1]? = some late ∧ late.Joins ⟨"a", 7⟩ .last
      ∧ parcels[3]? = some behind ∧ behind.Joins ⟨"a", 7⟩ .part
      ∧ ∃ violation ∈ validate parcels, violation.index = 3 := by
  intro late again behind parcels
  have hlate : late.Joins ⟨"a", 7⟩ .last := ⟨rfl, rfl⟩
  have hagain : again.Joins ⟨"a", 7⟩ .last := ⟨rfl, rfl⟩
  have hbehind : behind.Joins ⟨"a", 7⟩ .part := ⟨rfl, rfl⟩
  have hrises : ¬ again.Late (parcels.take 2) := by
    rintro ⟨q, hq, -, hle⟩
    refine Sequence.not_before_iff.mpr hle ?_
    have hall : ∀ q ∈ parcels.take 2, q.sequence.before again.sequence = true := by decide
    exact hall q hq
  have hreported := @reported_behind_last_iff parcels 1 3 late behind ⟨"a", 7⟩ .part (by decide)
    rfl hlate rfl hbehind
  exact ⟨by decide, rfl, hlate, rfl, hbehind,
    hreported.mpr (.inr (.inr ⟨2, again, by decide, rfl, hagain, hrises⟩))⟩

/-- Behind a last parcel that is late its group goes on, and nothing is
reported of the parcel that joins it. -/
theorem not_reported_behind_late_last :
    let late := sample 1 (some ⟨7, .last⟩)
    let behind := sample 3 (some ⟨7, .part⟩)
    let parcels := [sample 2 none, late, behind]
    1 < 2 ∧ parcels[1]? = some late ∧ late.Joins ⟨"a", 7⟩ .last
      ∧ parcels[2]? = some behind ∧ behind.Joins ⟨"a", 7⟩ .part
      ∧ validate parcels = [.sequenceRegression 1 "a" ⟨2, 0⟩ ⟨1, 0⟩]
      ∧ ¬ ∃ violation ∈ validate parcels, violation.index = 2 := by
  intro late behind parcels
  have hvalidate : validate parcels = [.sequenceRegression 1 "a" ⟨2, 0⟩ ⟨1, 0⟩] := by decide
  refine ⟨by decide, rfl, ⟨rfl, rfl⟩, rfl, ⟨rfl, rfl⟩, hvalidate, ?_⟩
  rw [hvalidate]
  decide

end StreamValidator

end Conformance
