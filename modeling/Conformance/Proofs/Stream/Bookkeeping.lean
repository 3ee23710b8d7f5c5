import Conformance.Proofs.Stream.Reports

/-!
# The books of the validator

The validator keeps two books of groups: those that are open and those
that are closed. Only a parcel that it accepts is entered, so after any
stream the books are a matter of the accepted parcels alone (`Booked`): a
group is closed by an accepted last parcel, and open while it has an
accepted part and no accepted last one. The open groups stand in order,
each once.

What a look at a parcel enters is said once (`booking`). The rest is one
case for each entry (`Booked.observe`), and an induction on the stream.
-/

namespace Conformance

namespace GroupKey

/-! ## Groups in order -/

/-- Ascending groups: by sender, then by number, each there once. -/
def Ascending (keys : List GroupKey) : Prop :=
  keys.Pairwise fun a b => a.sender < b.sender ∨ (a.sender = b.sender ∧ a.id < b.id)

theorem before_iff {a b : GroupKey} :
    a.before b = true ↔ a.sender < b.sender ∨ (a.sender = b.sender ∧ a.id < b.id) := by
  simp [before]

theorem ascending_iff {keys : List GroupKey} :
    Ascending keys ↔ keys.Pairwise fun a b => a.before b = true := by
  simp only [Ascending, before_iff]

theorem before_trans {a b c : GroupKey} (hab : a.before b = true) (hbc : b.before c = true) :
    a.before c = true := by
  rw [before_iff] at *
  rcases hab with hab | ⟨hab, hid⟩
  · rcases hbc with hbc | ⟨hbc, -⟩
    · exact .inl (String.lt_trans hab hbc)
    · exact .inl (hbc ▸ hab)
  · rcases hbc with hbc | ⟨hbc, hid'⟩
    · exact .inl (hab ▸ hbc)
    · exact .inr ⟨hab.trans hbc, UInt64.lt_trans hid hid'⟩

/-- Of two groups one comes before the other, unless they are the same. -/
theorem before_of_not {a b : GroupKey} (hne : a ≠ b) (hnot : ¬ a.before b = true) :
    b.before a = true := by
  rw [before_iff] at *
  obtain ⟨hsender, hid⟩ := not_or.mp hnot
  by_cases hs : b.sender < a.sender
  · exact .inl hs
  · have hsame : a.sender = b.sender :=
      String.le_antisymm (String.not_lt.mp hs) (String.not_lt.mp hsender)
    refine .inr ⟨hsame.symm, ?_⟩
    have hle : ¬ a.id < b.id := fun hlt => hid ⟨hsame, hlt⟩
    have hdiffers : a.id ≠ b.id := by
      intro heq
      apply hne
      obtain ⟨sender, id⟩ := a
      obtain ⟨sender', id'⟩ := b
      cases hsame
      cases heq
      rfl
    rw [UInt64.lt_iff_toNat_lt] at *
    rw [ne_eq, ← UInt64.toNat_inj] at hdiffers
    omega

theorem ascending_insert (key : GroupKey) {keys : List GroupKey} (h : Ascending keys) :
    Ascending (insert key keys) := by
  rw [ascending_iff] at *
  induction keys with
  | nil => exact List.pairwise_singleton ..
  | cons k r ih =>
      obtain ⟨hhead, htail⟩ := List.pairwise_cons.mp h
      rw [insert]
      split
      case isTrue => exact h
      case isFalse hne =>
        split
        case isTrue hbefore =>
          refine List.pairwise_cons.mpr ⟨?_, h⟩
          intro other hother
          rcases List.mem_cons.mp hother with rfl | hother
          · exact hbefore
          · exact before_trans hbefore (hhead other hother)
        case isFalse hnot =>
          refine List.pairwise_cons.mpr ⟨?_, ih htail⟩
          intro other hother
          rcases mem_insert.mp hother with rfl | hother
          · exact before_of_not hne hnot
          · exact hhead other hother

end GroupKey

namespace StreamValidator

/-! ## What a look enters -/

/-- What becomes of the open and of the closed groups when the validator
looks at a parcel, by what it reports. -/
inductive Booking (v : StreamValidator) (p : Parcel) :
    Option StreamViolation → List GroupKey → List GroupKey → Prop
  | refused (violation : StreamViolation) : Booking v p (some violation) v.openGroups v.closed
  | alone (hg : p.group = none) : Booking v p none v.openGroups v.closed
  | part {id} (hg : p.group = some ⟨id, .part⟩) (hopen : (⟨p.sender, id⟩ : GroupKey) ∉ v.closed) :
    Booking v p none (GroupKey.insert ⟨p.sender, id⟩ v.openGroups) v.closed
  | last {id} (hg : p.group = some ⟨id, .last⟩) (hopen : (⟨p.sender, id⟩ : GroupKey) ∉ v.closed) :
    Booking v p none (v.openGroups.filter (· ≠ ⟨p.sender, id⟩)) (⟨p.sender, id⟩ :: v.closed)

theorem booking (v : StreamValidator) (p : Parcel) :
    Booking v p (v.observe p).2 (v.observe p).1.openGroups (v.observe p).1.closed := by
  by_cases hrises : ∀ s, v.lastSequence.lookup p.sender = some s → s.before p.sequence = true
  · rw [observe_of_rises hrises, accept]
    cases hg : p.group with
    | none => exact .alone hg
    | some g =>
        obtain ⟨id, disposition⟩ := g
        by_cases hclosed : (⟨p.sender, id⟩ : GroupKey) ∈ v.closed
        · simpa [observeGroup, hclosed] using Booking.refused _
        · cases disposition with
          | part => simpa [observeGroup, hclosed] using Booking.part hg hclosed
          | last => simpa [observeGroup, hclosed] using Booking.last hg hclosed
  · obtain ⟨s, hs⟩ := Classical.not_forall.mp hrises
    obtain ⟨hprev, hs⟩ := Classical.not_imp.mp hs
    rw [observe_of_not_rises hprev hs]
    exact .refused _

/-! ## The books -/

/-- A parcel among these is in the group in this way. -/
def Joined (parcels : List Parcel) (key : GroupKey) (disposition : Disposition) : Prop :=
  ∃ p ∈ parcels, p.Joins key disposition

theorem joined_concat {parcels : List Parcel} {p : Parcel} {key : GroupKey}
    {disposition : Disposition} :
    Joined (parcels ++ [p]) key disposition
      ↔ Joined parcels key disposition ∨ p.Joins key disposition := by
  simp [Joined, or_and_right, exists_or]

/-- The parcels of a stream that are accepted: nothing is reported of
them. -/
def accepted (v : StreamValidator) : List Parcel → List Parcel
  | [] => []
  | p :: r =>
    if (v.observe p).2 = none then p :: accepted (v.observe p).1 r
    else accepted (v.observe p).1 r

/-- The books after these parcels were accepted. -/
structure Booked (parcels : List Parcel) (v : StreamValidator) : Prop where
  ascending : GroupKey.Ascending v.openGroups
  isOpen : ∀ key, key ∈ v.openGroups ↔ Joined parcels key .part ∧ ¬ Joined parcels key .last
  isClosed : ∀ key, key ∈ v.closed ↔ Joined parcels key .last

theorem booked_empty : Booked [] empty where
  ascending := List.Pairwise.nil
  isOpen key := by simp [empty, Joined]
  isClosed key := by simp [empty, Joined]

namespace Booked

variable {parcels : List Parcel} {v : StreamValidator} {p : Parcel}

/-- A parcel that is not accepted leaves the books as they are. -/
theorem refused (h : Booked parcels v) {violation : StreamViolation}
    (hreport : (v.observe p).2 = some violation) : Booked parcels (v.observe p).1 := by
  have hbooking := booking v p
  rw [hreport] at hbooking
  generalize hopen : (v.observe p).1.openGroups = openGroups at hbooking
  generalize hclosed : (v.observe p).1.closed = closed at hbooking
  cases hbooking with
  | refused =>
      constructor
      · rw [hopen]
        exact h.ascending
      · rw [hopen]
        exact h.isOpen
      · rw [hclosed]
        exact h.isClosed

/-- An accepted parcel is entered. -/
theorem accepts (h : Booked parcels v) (hreport : (v.observe p).2 = none) :
    Booked (parcels ++ [p]) (v.observe p).1 := by
  have hbooking := booking v p
  rw [hreport] at hbooking
  generalize hopen : (v.observe p).1.openGroups = openGroups at hbooking
  generalize hclosed : (v.observe p).1.closed = closed at hbooking
  constructor
  case ascending =>
    rw [hopen]
    cases hbooking with
    | alone => exact h.ascending
    | part => exact GroupKey.ascending_insert _ h.ascending
    | last => exact List.Pairwise.filter _ h.ascending
  case isOpen =>
    intro key
    rw [hopen, joined_concat, joined_concat]
    cases hbooking with
    | alone hg => simp [h.isOpen, Parcel.Joins, hg]
    | @part id hg hnew =>
        -- A group that is opened now has no last parcel so far.
        have hnone : key = ⟨p.sender, id⟩ → ¬ Joined parcels key .last := by
          rintro rfl hlast
          exact hnew ((h.isClosed _).mpr hlast)
        rw [GroupKey.mem_insert, h.isOpen, Parcel.joins_iff hg, Parcel.joins_iff hg]
        simp only [and_true, reduceCtorEq, and_false, or_false]
        constructor
        · rintro (hkey | ⟨hpart, hno⟩)
          · exact ⟨.inr hkey, hnone hkey⟩
          · exact ⟨.inl hpart, hno⟩
        · rintro ⟨hpart | hkey, hno⟩
          · exact .inr ⟨hpart, hno⟩
          · exact .inl hkey
    | @last id hg hnew =>
        rw [List.mem_filter, h.isOpen, Parcel.joins_iff hg, Parcel.joins_iff hg]
        simp only [decide_eq_true_eq, and_true, reduceCtorEq, and_false, or_false, not_or, and_assoc]
  case isClosed =>
    intro key
    rw [hclosed, joined_concat]
    cases hbooking with
    | alone hg => simp [h.isClosed, Parcel.Joins, hg]
    | part hg => simp [h.isClosed, Parcel.joins_iff hg]
    | last hg => rw [List.mem_cons, h.isClosed, Parcel.joins_iff hg, or_comm]; simp

/-- **The run.** After more parcels the books hold those of them that
were accepted as well. -/
theorem observeAll (h : Booked parcels v) (more : List Parcel) :
    Booked (parcels ++ v.accepted more) (v.observeAll more) := by
  induction more generalizing parcels v with
  | nil => simpa [accepted] using h
  | cons p r ih =>
      rw [observeAll_cons, accepted]
      cases hreport : (v.observe p).2 with
      | none =>
          have hrest := ih (h.accepts hreport)
          simpa using hrest
      | some violation =>
          have hrest := ih (h.refused hreport)
          simpa using hrest

/-- No group is open and closed. -/
theorem not_closed (h : Booked parcels v) {key : GroupKey} (hopen : key ∈ v.openGroups) :
    key ∉ v.closed := by
  intro hclosed
  exact ((h.isOpen key).mp hopen).2 ((h.isClosed key).mp hclosed)

end Booked

/-- **Groups.** After any stream no group is both open and closed. The
closed ones are those with an accepted last parcel, and whatever follows
they stay closed, and none of them is opened again. The open ones are
those with an accepted part and no accepted last parcel, in ascending
order, each once. -/
theorem groups_booked (parcels : List Parcel) :
    let v := empty.observeAll parcels
    (∀ key ∈ v.openGroups, key ∉ v.closed)
      ∧ (∀ more key, key ∈ v.closed →
          key ∈ (v.observeAll more).closed ∧ key ∉ (v.observeAll more).openGroups)
      ∧ (∀ key, key ∈ v.closed ↔ Joined (empty.accepted parcels) key .last)
      ∧ GroupKey.Ascending v.openGroups
      ∧ ∀ key, key ∈ v.openGroups
          ↔ Joined (empty.accepted parcels) key .part
            ∧ ¬ Joined (empty.accepted parcels) key .last := by
  intro v
  have hbooked : Booked (empty.accepted parcels) v := booked_empty.observeAll parcels
  refine ⟨fun _ => hbooked.not_closed, ?_, hbooked.isClosed, hbooked.ascending, hbooked.isOpen⟩
  intro more key hclosed
  have hlater := hbooked.observeAll more
  obtain ⟨p, hp, hlast⟩ := (hbooked.isClosed key).mp hclosed
  have hstays : key ∈ (v.observeAll more).closed :=
    (hlater.isClosed key).mpr ⟨p, List.mem_append_left _ hp, hlast⟩
  exact ⟨hstays, fun hopen => hlater.not_closed hopen hstays⟩

/-- A group that is closed, and then another one whose last parcel is late
and so not accepted. -/
theorem groups_booked_lateLast :
    let parcels := [sample 1 (some ⟨7, .part⟩), sample 2 (some ⟨7, .last⟩),
      sample 3 (some ⟨7, .part⟩), sample 4 (some ⟨8, .part⟩), sample 2 (some ⟨8, .last⟩)]
    let more := [sample 5 (some ⟨7, .part⟩)]
    let v := empty.observeAll parcels
    empty.accepted parcels
        = [sample 1 (some ⟨7, .part⟩), sample 2 (some ⟨7, .last⟩), sample 4 (some ⟨8, .part⟩)]
      ∧ v.openGroups = [⟨"a", 8⟩] ∧ (⟨"a", 7⟩ : GroupKey) ∈ v.closed
      ∧ (⟨"a", 7⟩ : GroupKey) ∈ (v.observeAll more).closed
      ∧ (⟨"a", 7⟩ : GroupKey) ∉ (v.observeAll more).openGroups := by
  intro parcels more v
  have hclosed : (⟨"a", 7⟩ : GroupKey) ∈ v.closed := by decide
  obtain ⟨-, hstays, -⟩ := groups_booked parcels
  exact ⟨by decide, by decide, hclosed, hstays more _ hclosed⟩

end StreamValidator

end Conformance
