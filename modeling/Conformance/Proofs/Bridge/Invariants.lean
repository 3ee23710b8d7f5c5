import Conformance.Proofs.Bridge.Operations

/-!
# What a plugin keeps, its bridge keeps

A property of a plugin's states that its entry points and its threads
keep holds as long as the plugin is loaded, and what its stop and its
release make of that holds ever after (`performAll_holds`). It is enough
to look at the plugin (`Plugin.Keeps`); which operation of a bridge calls
what does not matter.
-/

namespace Conformance

variable {σ : Type}

/-- A plugin that was started keeps `during` until it is unloaded, which
makes it `after`. -/
structure Plugin.Keeps (p : Plugin σ) (during after : σ → Prop) : Prop where
  status : ∀ s h, during s → during (p.status s h).state
  deliver : ∀ s h handler request, during s → during (p.deliver s h handler request).state
  background : ∀ s h bound, during s → during (p.background s h bound).2
  unload : ∀ s h, during s → after (p.release (p.stop s h).state h).2

namespace Bridge

/-- A bridge to a plugin whose state is `during` as long as it is loaded,
and `after` from then on. -/
structure Holds (p : Plugin σ) (during after : σ → Prop) (b : Bridge σ) : Prop where
  plugin : b.plugin = p
  loaded : b.loaded = true → during b.state
  unloaded : b.loaded = false → after b.state

variable {p : Plugin σ} {during after : σ → Prop} {b : Bridge σ}

theorem Holds.of_loaded (hp : b.plugin = p) (hl : b.loaded = true) (hs : during b.state) :
    b.Holds p during after :=
  ⟨hp, fun _ => hs, fun h => absurd (hl.symm.trans h) (by simp)⟩

theorem Holds.of_unloaded (hp : b.plugin = p) (hl : b.loaded = false) (hs : after b.state) :
    b.Holds p during after :=
  ⟨hp, fun h => absurd (hl.symm.trans h) (by simp), fun _ => hs⟩

theorem attach_holds {h : Host} {s : σ} {settings : Settings} {capacity : Nat}
    (hb : attach h p s settings capacity = .ok b) (hstart : during (p.start s h settings).state) :
    b.Holds p during after := by
  unfold attach at hb
  dsimp only at hb
  split at hb
  · obtain rfl := Except.ok.inj hb
    exact .of_loaded rfl rfl hstart
  · cases hb

/-- Only a plugin that is loaded answers with a descriptor. -/
theorem loaded_of_pollStatus (b : Bridge σ) (h : Host) (d : Descriptor)
    (hd : (b.pollStatus h).1 = .ok d) : (b.pollStatus h).2.loaded = true := by
  cases hb : b.loaded with
  | false => simp [pollStatus, hb] at hd
  | true =>
      simp only [pollStatus, hb]
      cases (b.plugin.status b.state h).outcome.checked "status" <;> exact hb

/-- A plugin that does not start is let go. -/
theorem released_of_attach {h : Host} {s s' : σ} {settings : Settings} {capacity : Nat}
    {fault : BridgeFault} (hb : attach h p s settings capacity = .error (fault, s')) :
    (p.release (p.start s h settings).state h).2 = s' := by
  unfold attach at hb
  dsimp only at hb
  split at hb
  · cases hb
  · exact (Prod.mk.inj (Except.error.inj hb)).2

section

variable (hkeeps : p.Keeps during after)

include hkeeps

theorem pollStatus_holds (hb : b.Holds p during after) (h : Host) :
    (b.pollStatus h).2.Holds p during after := by
  obtain ⟨plugin, s, loaded, d, c⟩ := b
  obtain ⟨hplugin, hduring, hafter⟩ := hb
  obtain rfl : plugin = p := hplugin
  cases loaded with
  | false => exact ⟨rfl, hduring, hafter⟩
  | true =>
      have hs := hkeeps.status s h (hduring rfl)
      simp only [pollStatus]
      cases (plugin.status s h).outcome.checked "status" <;> exact .of_loaded rfl rfl hs

theorem deliver_holds (hb : b.Holds p during after) (h : Host) (capability : String)
    (request : Json) : (b.deliver h capability request).2.Holds p during after := by
  have hpolled := pollStatus_holds hkeeps hb h
  have hanswered := loaded_of_pollStatus b h
  unfold deliver
  generalize b.pollStatus h = polled at hpolled hanswered ⊢
  obtain ⟨answer, b'⟩ := polled
  cases answer with
  | error fault => exact hpolled
  | ok d =>
      have hloaded : b'.loaded = true := hanswered d rfl
      dsimp only
      cases route d capability request with
      | error fault => exact hpolled
      | ok handler =>
          refine .of_loaded hpolled.plugin hloaded ?_
          rw [hpolled.plugin]
          exact hkeeps.deliver _ h handler request (hpolled.loaded hloaded)

theorem idle_holds (hb : b.Holds p during after) (h : Host) (bound : Nat) :
    (b.idle h bound).Holds p during after := by
  obtain ⟨plugin, s, loaded, d, c⟩ := b
  obtain ⟨hplugin, hduring, hafter⟩ := hb
  obtain rfl : plugin = p := hplugin
  cases loaded with
  | false => exact ⟨rfl, hduring, hafter⟩
  | true => exact .of_loaded rfl rfl (hkeeps.background s h bound (hduring rfl))

theorem unload_holds (hb : b.Holds p during after) (h : Host) :
    (b.unload h).2.Holds p during after := by
  obtain ⟨plugin, s, loaded, d, c⟩ := b
  obtain ⟨hplugin, hduring, hafter⟩ := hb
  obtain rfl : plugin = p := hplugin
  cases loaded with
  | false => exact ⟨rfl, hduring, hafter⟩
  | true => exact .of_unloaded rfl rfl (hkeeps.unload s h (hduring rfl))

/-- **The step.** Every operation of the bridge keeps what the plugin
keeps. -/
theorem perform_holds (b : Bridge σ) (h : Host) (op : BridgeOp) (hb : b.Holds p during after) :
    (b.perform h op).2.Holds p during after := by
  cases op with
  | status => exact pollStatus_holds hkeeps hb h
  | deliver capability request => exact deliver_holds hkeeps hb h capability request
  | drain =>
      unfold perform drain
      dsimp only
      split <;> exact ⟨hb.plugin, hb.loaded, hb.unloaded⟩
  | waitNext bound =>
      unfold perform waitNext
      dsimp only
      split
      · exact hb
      · split
        · have hidle := idle_holds hkeeps hb h bound
          exact ⟨hidle.plugin, hidle.loaded, hidle.unloaded⟩
        · exact ⟨hb.plugin, hb.loaded, hb.unloaded⟩
  | descriptor | stats => exact hb
  | arrive emissions => exact ⟨hb.plugin, hb.loaded, hb.unloaded⟩
  | unload => exact unload_holds hkeeps hb h
  | idle bound => exact idle_holds hkeeps hb h bound

theorem performAll_holds (ops : List (Host × BridgeOp)) (hb : b.Holds p during after) :
    (b.performAll ops).Holds p during after :=
  performAll_induction (perform_holds hkeeps) ops hb

/-- However a bridge was used, once it is dropped its plugin was
unloaded. -/
theorem Holds.dropped (hb : b.Holds p during after) (h : Host) :
    after (b.dropped h).state := by
  have hunloaded : (b.unload h).2.loaded = false := by
    cases hl : b.loaded <;> simp [unload, hl]
  exact (unload_holds hkeeps hb h).unloaded hunloaded

end

end Bridge

end Conformance
