import Conformance.Proofs.Channel.Interleaving
import Conformance.Proofs.Stream.Validity

/-!
# Streams with losses

A full queue refuses parcels, so the host may be handed fewer of them
than were emitted. It is still handed what it gets in the order of the
emits (`kept_sublist`), and the rules of a stream are about any two
parcels, so they hold for whatever is left of a stream that keeps them
(`StreamValidator.validate_sublist`). A violation that the host sees is
then one of the plugin, and no trace of a loss.
-/

namespace Conformance

/-- Nothing is reported about what is left of a stream without violation,
although the validator looks at it in other states. -/
theorem StreamValidator.validate_sublist {kept parcels : List Parcel}
    (hkept : kept.Sublist parcels) (hvalid : validate parcels = []) : validate kept = [] :=
  (validate_eq_nil_iff_pairwise kept).mpr
    (((validate_eq_nil_iff_pairwise parcels).mp hvalid).sublist hkept)

namespace Traffic

variable {τ : Type}

/-- The parcels of all emits, in the order of the attempts. -/
def emitted (es : List (Event τ)) : List Parcel := (emits es).map fun e => e.2.1

/-- What arrives are the parcels of some of the emits, in their order. -/
theorem arrivals_sublist (es : List (Event τ)) :
    ((arrivals es).map Prod.snd).Sublist (emitted es) := by
  induction es with
  | nil => exact .slnil
  | cons e es ih =>
      simp only [emitted, arrivals, emits] at ih ⊢
      cases e with
      | attempt t p o =>
          cases o with
          | accepted => simpa using ih.cons_cons p
          | dropped => simpa using ih.cons p
          | discarded => simpa using ih.cons p
      | count t o => simpa using ih
      | reject t => simpa using ih
      | drainBegins => simpa using ih
      | drainTakes p => simpa using ih
      | drained ps => simpa using ih
      | waited p => simpa using ih

/-- What was handed out, what a drain has taken and what is queued are
emitted parcels, in the order of the emits. -/
theorem kept_sublist [DecidableEq τ] {capacity : Nat} {es : List (Event τ)} {s : Traffic τ}
    (h : Steps (start τ capacity) es s) :
    (handedOut es ++ s.taken ++ s.channel.queue).Sublist (emitted es) := by
  rw [(ledger_of_steps h).order]
  exact arrivals_sublist es

/-- **Losses.** However a channel is used, and whatever is lost at its
full queue: if nothing can be reported about the parcels in the order in
which they were emitted, then nothing is reported about those that the
host was handed, also together with those that it can still take. -/
theorem handedOut_valid [DecidableEq τ] {capacity : Nat} {es : List (Event τ)} {s : Traffic τ}
    (h : Steps (start τ capacity) es s) {parcels : List Parcel}
    (hemitted : emitted es <+: parcels) (hvalid : StreamValidator.validate parcels = []) :
    StreamValidator.validate (handedOut es) = []
      ∧ StreamValidator.validate (handedOut es ++ s.taken ++ s.channel.queue) = [] := by
  have hkept := (kept_sublist h).trans hemitted.sublist
  have hfirst : (handedOut es).Sublist (handedOut es ++ s.taken ++ s.channel.queue) := by
    rw [List.append_assoc]
    exact List.sublist_append_left ..
  exact ⟨StreamValidator.validate_sublist (hfirst.trans hkept) hvalid,
    StreamValidator.validate_sublist hkept hvalid⟩

/-- A queue of one loses the last parcel of a group, and of the next
group all but its last one. -/
theorem handedOut_valid_lostLast :
    let p (n : UInt64) (g : Group) : Parcel := {
      time := ⟨0, 0⟩, sender := "a", recipient := "host", type := "t", compression := .none
      sequence := ⟨1, n⟩, group := some g, payload := [] }
    let parcels := [p 0 ⟨7, .part⟩, p 1 ⟨7, .last⟩, p 2 ⟨8, .part⟩, p 3 ⟨8, .last⟩]
    ∃ (es : List (Event Bool)) (s : Traffic Bool), Steps (start Bool 0) es s
      ∧ emitted es = parcels ∧ StreamValidator.validate parcels = []
      ∧ handedOut es = [p 0 ⟨7, .part⟩, p 3 ⟨8, .last⟩]
      ∧ StreamValidator.validate (handedOut es) = [] := by
  intro p parcels
  have hfull := ((((Steps.nil (s := start Bool 0)).snoc
    (.attempt (t := false) (p 0 ⟨7, .part⟩) (by decide))).snoc
    (.count (t := false) (o := .accepted) (by decide))).snoc
    (.attempt (t := false) (p 1 ⟨7, .last⟩) (by decide))).snoc
    (.attempt (t := true) (p 2 ⟨8, .part⟩) (by decide))
  have hrest := (((((hfull.snoc
    (.waited rfl)).snoc
    (.count (t := true) (o := .dropped) (by decide))).snoc
    (.attempt (t := true) (p 3 ⟨8, .last⟩) (by decide))).snoc
    (.drainBegins rfl)).snoc
    (.drainTakes (p := p 3 ⟨8, .last⟩) rfl rfl)).snoc
    (.drained rfl rfl)
  have hvalid : StreamValidator.validate parcels = [] := by decide
  exact ⟨_, _, hrest, rfl, hvalid, rfl, (handedOut_valid hrest List.prefix_rfl hvalid).1⟩

end Traffic

end Conformance
