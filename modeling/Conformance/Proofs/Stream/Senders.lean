import Conformance.Proofs.Stream.Reports

/-!
# Senders do not interfere

The validator keeps what it knows of all senders side by side: one list of
sequences, and one of closed groups. Two validators may differ in it and
still agree about a sender (`Agrees`). They do so after a parcel of another
sender, whichever of them looks at it, and after one of this sender at
which both look. So what is reported about a sender is what would be
reported about its parcels alone (`reportsOn_eq`), and it does not matter
how they stand among those of the others.
-/

namespace Conformance

/-- A report without the place at which the parcel arrived. -/
inductive Breach where
  | regression (sender : String) (previous current : Sequence)
  | behindLast (sender : String) (group : UInt64)
  deriving Repr, DecidableEq

def Breach.sender : Breach → String
  | .regression sender .. => sender
  | .behindLast sender _ => sender

def StreamViolation.breach : StreamViolation → Breach
  | .sequenceRegression _ sender previous current => .regression sender previous current
  | .groupAfterLast _ sender group => .behindLast sender group

namespace StreamValidator

/-- The parcels of one sender, in their order. -/
def sentBy (sender : String) (parcels : List Parcel) : List Parcel :=
  parcels.filter (·.sender = sender)

/-- What is reported about one sender, in its order. -/
def reportsOn (sender : String) (parcels : List Parcel) : List Breach :=
  ((validate parcels).map StreamViolation.breach).filter (·.sender = sender)

/-- Two validators know the same of a sender. -/
structure Agrees (sender : String) (v w : StreamValidator) : Prop where
  last : v.lastSequence.lookup sender = w.lastSequence.lookup sender
  closed : ∀ id, (⟨sender, id⟩ : GroupKey) ∈ v.closed ↔ (⟨sender, id⟩ : GroupKey) ∈ w.closed

variable {sender : String} {v w : StreamValidator} {p : Parcel}

/-! ## One look -/

/-- A report is about the sender of the parcel. -/
theorem sender_of_report {violation : StreamViolation} (h : (v.observe p).2 = some violation) :
    violation.breach.sender = p.sender := by
  have hlook := look v p
  rw [h] at hlook
  generalize (v.observe p).1 = v' at hlook
  cases hlook <;> rfl

/-- A parcel changes nothing of what is known of another sender. -/
theorem Agrees.observe_other (h : Agrees sender v w) (hs : p.sender ≠ sender) :
    Agrees sender (v.observe p).1 w := by
  have hnote : (note p.sender p.sequence v.lastSequence).lookup sender
      = w.lastSequence.lookup sender := by
    rw [lookup_note, if_neg (Ne.symm hs), h.last]
  have hlook := look v p
  generalize (v.observe p).1 = v' at hlook ⊢
  generalize (v.observe p).2 = reported at hlook
  cases hlook with
  | late _ _ => exact ⟨h.last, h.closed⟩
  | closed _ _ _ => exact ⟨hnote, h.closed⟩
  | admitted _ _ hlast hclosed =>
      refine ⟨by rw [hlast, hnote], fun id => ?_⟩
      rw [hclosed, List.mem_append, mem_closedBy, ← h.closed id]
      constructor
      · rintro (⟨hs', -⟩ | hmem)
        · exact absurd hs' hs
        · exact hmem
      · exact .inr

/-- Of a parcel of this sender both report the same, and agree again. -/
theorem Agrees.observe_same (h : Agrees p.sender v w) :
    (v.observe p).2.map StreamViolation.breach = (w.observe p).2.map StreamViolation.breach
      ∧ Agrees p.sender (v.observe p).1 (w.observe p).1 := by
  have hv := look v p
  have hw := look w p
  generalize v.observe p = seen at hv ⊢
  generalize w.observe p = seen' at hw ⊢
  obtain ⟨v', reported⟩ := seen
  obtain ⟨w', reported'⟩ := seen'
  have hnote : (note p.sender p.sequence v.lastSequence).lookup p.sender
      = (note p.sender p.sequence w.lastSequence).lookup p.sender := by
    rw [lookup_note, lookup_note, h.last]
  -- Both have the same former sequence, so the parcel is late for both or
  -- for none; and its group is closed for both or for none.
  cases hv with
  | @late s hprev hle =>
      have hprev' := h.last.symm.trans hprev
      have hlate : ¬ s.before p.sequence = true := Sequence.not_before_iff.mpr hle
      cases hw with
      | @late s' hprev'' _ =>
          obtain rfl := Option.some.inj (hprev'.symm.trans hprev'')
          exact ⟨rfl, h.last, h.closed⟩
      | closed hrises _ _ => exact absurd (hrises s hprev') hlate
      | admitted hadmits _ _ _ => exact absurd (hadmits.1 s hprev') hlate
  | @closed g hrises hg hclosed =>
      cases hw with
      | late hprev hle =>
          exact absurd (hrises _ (h.last.trans hprev)) (Sequence.not_before_iff.mpr hle)
      | closed _ hg' _ =>
          obtain rfl := Option.some.inj (hg.symm.trans hg')
          exact ⟨rfl, hnote, h.closed⟩
      | admitted hadmits _ _ _ => exact absurd ((h.closed _).mp hclosed) (hadmits.2 g hg)
  | admitted hadmits _ hlast hclosed =>
      cases hw with
      | late hprev hle =>
          exact absurd (hadmits.1 _ (h.last.trans hprev)) (Sequence.not_before_iff.mpr hle)
      | closed _ hg hclosed' => exact absurd ((h.closed _).mpr hclosed') (hadmits.2 _ hg)
      | admitted _ _ hlast' hclosed' =>
          refine ⟨rfl, ?_, fun id => ?_⟩
          · rw [hlast, hlast', hnote]
          · rw [hclosed, hclosed', List.mem_append, List.mem_append, h.closed id]

/-! ## The whole stream -/

theorem violations_cons (v : StreamValidator) (p : Parcel) (r : List Parcel) :
    v.violations (p :: r) = (v.observe p).2.toList ++ (v.observe p).1.violations r := by
  rw [violations]
  split <;> rename_i hobs <;> simp [hobs]

/-- Validators that agree about a sender report the same about it, one of
them looking at all parcels, the other one at those of the sender. -/
theorem Agrees.violations (h : Agrees sender v w) (parcels : List Parcel) :
    ((v.violations parcels).map StreamViolation.breach).filter (·.sender = sender)
      = (w.violations (sentBy sender parcels)).map StreamViolation.breach := by
  induction parcels generalizing v w with
  | nil => rfl
  | cons p r ih =>
      rw [violations_cons, List.map_append, List.filter_append]
      by_cases hs : p.sender = sender
      · subst hs
        obtain ⟨hreport, hagrees⟩ := h.observe_same
        have hown : sentBy p.sender (p :: r) = p :: sentBy p.sender r :=
          List.filter_cons_of_pos (by simp)
        have hfirst : ((v.observe p).2.toList.map StreamViolation.breach).filter
            (·.sender = p.sender) = (w.observe p).2.toList.map StreamViolation.breach := by
          rw [← Option.toList_map, ← Option.toList_map, ← hreport]
          cases hobs : (v.observe p).2 with
          | none => rfl
          | some violation => simp [sender_of_report hobs]
        rw [ih hagrees, hfirst, hown, violations_cons, List.map_append]
      · have hother : sentBy sender (p :: r) = sentBy sender r :=
          List.filter_cons_of_neg (by simpa using hs)
        have hfirst : ((v.observe p).2.toList.map StreamViolation.breach).filter
            (·.sender = sender) = [] := by
          cases hobs : (v.observe p).2 with
          | none => rfl
          | some violation => simp [sender_of_report hobs, hs]
        rw [ih (h.observe_other hs), hfirst, hother, List.nil_append]

/-- **Senders.** What is reported about a sender is what is reported of
its parcels alone, place of arrival aside. So it is the same however they
stand among the parcels of other senders. -/
theorem reportsOn_eq (parcels : List Parcel) :
    (∀ sender, reportsOn sender parcels
        = (validate (sentBy sender parcels)).map StreamViolation.breach)
      ∧ ∀ sender others, sentBy sender others = sentBy sender parcels →
          reportsOn sender others = reportsOn sender parcels := by
  have halone : ∀ sender parcels, reportsOn sender parcels
      = (validate (sentBy sender parcels)).map StreamViolation.breach := by
    intro sender parcels
    have hagrees : Agrees sender empty empty := ⟨rfl, fun _ => Iff.rfl⟩
    exact hagrees.violations parcels
  refine ⟨fun sender => halone sender parcels, ?_⟩
  intro sender others hsame
  rw [halone, halone, hsame]

/-- Two senders that use one group number, one of them breaking its rules,
in two orders. -/
theorem reportsOn_eq_interleaved :
    let first := sample 2 none
    let late := sample 1 (some ⟨7, .last⟩)
    let ends : Parcel := { sample 1 (some ⟨7, .last⟩) with sender := "b" }
    let behind : Parcel := { sample 2 (some ⟨7, .part⟩) with sender := "b" }
    let parcels := [first, ends, late, behind]
    let others := [ends, behind, first, late]
    sentBy "b" others = sentBy "b" parcels
      ∧ reportsOn "b" parcels = [.behindLast "b" 7]
      ∧ reportsOn "b" others = reportsOn "b" parcels := by
  intro first late ends behind parcels others
  have hsame : sentBy "b" others = sentBy "b" parcels := by decide
  exact ⟨hsame, by decide, (reportsOn_eq parcels).2 "b" others hsame⟩

end StreamValidator

end Conformance
