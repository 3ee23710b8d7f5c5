import Conformance.Proofs.Channel.Accounting
import Conformance.Proofs.Scenario.Attachment
import Conformance.Proofs.Scenario.Moves

/-!
# What a run has observed

The parcels a run has observed and those still in the queue are together
what the channel has accepted. Every operation of the bridge keeps that
balance (`perform_balance`), so every move of a run does, and a report
never counts more parcels as observed than were accepted, whatever the
plugin does and however the run ends.
-/

namespace Conformance

/-! ## One operation -/

namespace Channel

theorem drain_balance (c : Channel) :
    c.drain.1.length + c.drain.2.queue.length = c.queue.length := rfl

theorem next_balance (c : Channel) :
    c.next.1.toList.length + c.next.2.queue.length = c.queue.length
      ∧ c.next.2.stats = c.stats := by
  obtain ⟨limit, queue, stats, received⟩ := c
  cases queue with
  | nil => exact ⟨rfl, rfl⟩
  | cons p r => exact ⟨Nat.add_comm .., rfl⟩

/-- Between two states of a channel so many parcels were taken out, and
the others that were there or were accepted meanwhile are queued. -/
def Accounted (c c' : Channel) (taken : Nat) : Prop :=
  taken + c'.queue.length + c.stats.accepted = c.queue.length + c'.stats.accepted

theorem accounted_takeAll (c : Channel) (es : List Emission) : Accounted c (c.takeAll es) 0 := by
  have h := takeAll_accepted es c
  unfold Accounted
  omega

theorem Accounted.trans {c c' c'' : Channel} {n m : Nat} (h : Accounted c c' n)
    (h' : Accounted c' c'' m) : Accounted c c'' (n + m) := by
  unfold Accounted at h h' ⊢
  omega

end Channel

namespace Bridge

variable {σ : Type}

open Channel

theorem pollStatus_balance (b : Bridge σ) (h : Host) :
    Accounted b.channel (b.pollStatus h).2.channel 0 := by
  unfold pollStatus
  split
  · exact accounted_takeAll b.channel []
  · dsimp only
    split <;> exact accounted_takeAll ..

theorem deliver_balance (b : Bridge σ) (h : Host) (capability : String) (request : Json) :
    Accounted b.channel (b.deliver h capability request).2.channel 0 := by
  have hpoll := pollStatus_balance b h
  unfold deliver
  generalize b.pollStatus h = polled at hpoll ⊢
  obtain ⟨answer, b'⟩ := polled
  cases answer with
  | error fault => exact hpoll
  | ok d =>
      dsimp only
      cases route d capability request with
      | error fault => exact hpoll
      | ok handler => exact hpoll.trans (accounted_takeAll ..)

theorem idle_balance (b : Bridge σ) (h : Host) (bound : Nat) :
    Accounted b.channel (b.idle h bound).channel 0 := by
  unfold idle
  split
  · exact accounted_takeAll b.channel []
  · exact accounted_takeAll ..

theorem waitNext_balance (b : Bridge σ) (h : Host) (bound : Nat) :
    Accounted b.channel (b.waitNext h bound).2.channel
      (BridgeAnswer.taken ((b.waitNext h bound).1.map .parcel)).length := by
  unfold waitNext
  split
  · exact accounted_takeAll b.channel []
  · have hidle : Accounted b.channel
        (if b.channel.queue.isEmpty then b.idle h bound else b).channel 0 := by
      split
      · exact idle_balance b h bound
      · exact accounted_takeAll b.channel []
    generalize (if b.channel.queue.isEmpty then b.idle h bound else b) = b' at hidle ⊢
    obtain ⟨hlen, hstats⟩ := next_balance b'.channel
    have hnext : Accounted b'.channel b'.channel.next.2 b'.channel.next.1.toList.length := by
      rw [Accounted, hlen, hstats]
    have htotal := hidle.trans hnext
    rwa [Nat.zero_add] at htotal

theorem unload_balance (b : Bridge σ) (h : Host) :
    Accounted b.channel (b.unload h).2.channel 0 := by
  unfold unload
  split
  · exact accounted_takeAll b.channel []
  · exact (accounted_takeAll b.channel _).trans (accounted_takeAll _ _)

/-- **The balance.** What an operation takes out and what it leaves in
the queue is what was there before and what was accepted meanwhile. -/
theorem perform_balance (b : Bridge σ) (h : Host) (op : BridgeOp) :
    Accounted b.channel (b.perform h op).2.channel
      (BridgeAnswer.taken (b.perform h op).1).length := by
  cases op with
  | status =>
      have hb := pollStatus_balance b h
      simp only [perform]
      generalize (b.pollStatus h).1 = answer
      cases answer <;> exact hb
  | deliver capability request =>
      have hb := deliver_balance b h capability request
      simp only [perform]
      generalize (b.deliver h capability request).1 = answer
      cases answer <;> exact hb
  | drain =>
      unfold perform drain
      cases b.loaded with
      | false => exact accounted_takeAll b.channel []
      | true =>
          have hlen := drain_balance b.channel
          exact congrArg (· + b.channel.stats.accepted) hlen
  | waitNext bound => exact waitNext_balance b h bound
  | descriptor =>
      unfold perform currentDescriptor
      cases b.loaded <;> exact accounted_takeAll b.channel []
  | stats => exact accounted_takeAll b.channel []
  | unload =>
      have hb := unload_balance b h
      simp only [perform]
      generalize (b.unload h).1 = answer
      cases answer <;> exact hb
  | idle bound => exact idle_balance b h bound
  | arrive emissions => exact accounted_takeAll b.channel emissions

end Bridge

/-! ## Runs -/

namespace Run

variable {σ : Type}

/-- What was observed and what is queued is what was accepted. -/
def Counted (run : Run σ) : Prop :=
  run.observed.length + run.bridge.channel.queue.length = run.bridge.channel.stats.accepted

theorem move_counted {ws : Workspace} {run run' : Run σ} (hm : Move ws run run')
    (h : run.Counted) : run'.Counted := by
  cases hm with
  | aside hb _ ho =>
      unfold Counted at h ⊢
      rw [hb, ho]
      exact h
  | change _ => exact h
  | operate op _ =>
      have hop := Bridge.perform_balance run.bridge run.host op
      simp only [Counted, operate, List.length_append, Channel.Accounted] at h hop ⊢
      omega

theorem counted_le {run : Run σ} (h : run.Counted) :
    run.observed.length ≤ run.bridge.channel.stats.accepted := by
  unfold Counted at h
  omega

end Run

namespace Harness

variable {σ : Type}

theorem attach_counted {hn : Harness σ} {h : Host} {p : Plugin σ} {s : σ} {b : Bridge σ}
    (hb : hn.attach h p s = .ok b) : b.channel.queue.length = b.channel.stats.accepted := by
  obtain ⟨d, -, rfl⟩ := attach_started hb
  have haccepted := Channel.takeAll_accepted (p.start s h hn.config.settings).emissions
    (Channel.bounded hn.config.captureCapacity)
  simp only [Channel.bounded, ChannelStats.zero, List.length_nil, Nat.add_zero,
    Nat.zero_add] at haccepted
  exact haccepted.symm

/-- The run of a scenario that came to its steps, when it is concluded. -/
theorem execute_counted {h : Host} {sc : Scenario} {b : Bridge σ}
    (hb : b.channel.queue.length = b.channel.stats.accepted) :
    (Run.execute sc ⟨h, b, [], 0, 0, .parse⟩).run.idle.Counted := by
  have hmoves := (Run.execute_reaches sc ⟨h, b, [], 0, 0, .parse⟩).moves.trans (Run.idle_moves _)
  refine Run.moves_induction (fun _ _ => Run.move_counted) hmoves ?_
  simpa [Run.Counted] using hb

/-- No report counts more parcels as observed than were accepted. -/
theorem observed_le_accepted (hn : Harness σ) (script : Script) (source : Source σ) :
    (hn.run script source).report.parcelsObserved
      ≤ (hn.run script source).report.stats.accepted := by
  unfold run
  split
  · exact Nat.le_refl 0
  · dsimp only
    split
    · exact Nat.le_refl 0
    · rename_i bridge hstart
      rw [startPlugin_eq] at hstart
      split at hstart
      · exact Run.counted_le (execute_counted (attach_counted hstart))
      · cases hstart

end Harness

end Conformance
