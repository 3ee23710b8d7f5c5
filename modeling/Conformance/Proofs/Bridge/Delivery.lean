import Conformance.Bridge

/-!
# Requests that arrive

A request is handed over in two calls: the plugin is asked for its
descriptor, and if that routes the request, the handler it names is
called. `deliver_ok_iff` says when a loaded bridge reports success, and
what bridge is left then.
-/

namespace Conformance

/-- A guarded call succeeds exactly when the entry point returns. -/
theorem Outcome.checked_eq_ok {α : Type} {entry : String} {o : Outcome α} {a : α} :
    o.checked entry = .ok a ↔ o = .done a := by
  cases o with
  | done x => simp [checked]
  | failed fault => simp [checked]
  | panicked payload => simp [checked]

namespace Bridge

variable {σ : Type} {b : Bridge σ}

theorem pollStatus_of_done (hb : b.loaded = true) {h : Host} {d : Descriptor}
    (hd : (b.plugin.status b.state h).outcome = .done d) :
    b.pollStatus h
      = (.ok d, { b.after (b.plugin.status b.state h) with descriptor := d }) := by
  simp [pollStatus, hb, Outcome.checked_eq_ok.mpr hd]

theorem pollStatus_eq_ok (hb : b.loaded = true) {h : Host} {d : Descriptor} {b' : Bridge σ}
    (hpoll : b.pollStatus h = (.ok d, b')) :
    (b.plugin.status b.state h).outcome = .done d := by
  cases ho : (b.plugin.status b.state h).outcome.checked "status" with
  | ok d' =>
      simp only [pollStatus, hb, ho, Bool.not_true, Bool.false_eq_true, if_false,
        Prod.mk.injEq, Except.ok.injEq] at hpoll
      obtain ⟨rfl, -⟩ := hpoll
      exact Outcome.checked_eq_ok.mp ho
  | error fault => simp [pollStatus, hb, ho] at hpoll

/-- **Delivery.** A request is delivered exactly when the plugin answers
with a descriptor that routes it to a handler, and the handler returns;
both calls' emissions are then in the channel. -/
theorem deliver_ok_iff (hb : b.loaded = true) {h : Host} {capability : String}
    {request : Json} {b' : Bridge σ} :
    b.deliver h capability request = (.ok (), b') ↔ ∃ d handler,
      (b.plugin.status b.state h).outcome = .done d
        ∧ route d capability request = .ok handler
        ∧ (b.plugin.deliver (b.plugin.status b.state h).state h handler request).outcome
            = .done ()
        ∧ b' = ({ b.after (b.plugin.status b.state h) with descriptor := d } : Bridge σ).after
            (b.plugin.deliver (b.plugin.status b.state h).state h handler request) := by
  constructor
  · intro hdel
    rcases hpoll : b.pollStatus h with ⟨fault | d, b₁⟩
    · simp [deliver, hpoll] at hdel
    · have hd := pollStatus_eq_ok hb hpoll
      rw [deliver, pollStatus_of_done hb hd] at hdel
      cases hr : route d capability request with
      | error fault => simp [hr] at hdel
      | ok handler =>
          simp only [hr, Prod.mk.injEq] at hdel
          exact ⟨d, handler, hd, hr, Outcome.checked_eq_ok.mp hdel.1, hdel.2.symm⟩
  · rintro ⟨d, handler, hd, hr, ho, rfl⟩
    rw [deliver, pollStatus_of_done hb hd]
    simp only [hr]
    exact congrArg (·, _) (Outcome.checked_eq_ok.mpr ho)

end Bridge

end Conformance
