import Mathlib.Data.List.Forall2
import Conformance.Proofs.Datum.Records

/-!
# Lists that are read item by item

Kinds of attributes, and entries of a list, are read one after the other
up to the first that cannot be read. So all of them are read just if each
can be (`Result.exists_mapM_iff`), and otherwise the fault is that of an
item with none but readable ones before it (`Result.mapM_eq_error`). Where
the items are in order, those before it are the smaller ones
(`exists_split_iff`).
-/

namespace Conformance

namespace Result

variable {ε ε' α β : Type} {f : α → Except ε β}

theorem map_eq_error {x : Except ε α} {g : α → β} {e : ε} : x.map g = .error e ↔ x = .error e := by
  cases x <;> simp [Except.map]

theorem mapError_eq_ok {x : Except ε α} {g : ε → ε'} {a : α} :
    x.mapError g = .ok a ↔ x = .ok a := by
  cases x <;> simp [Except.mapError]

theorem mapError_eq_error {x : Except ε α} {g : ε → ε'} {e' : ε'} :
    x.mapError g = .error e' ↔ ∃ e, x = .error e ∧ g e = e' := by
  cases x <;> simp [Except.mapError]

theorem exists_ok_iff {x : Except ε α} : (∃ a, x = .ok a) ↔ ∀ e, x ≠ .error e := by
  cases x <;> simp

theorem mapM_eq_ok : ∀ {as : List α} {bs : List β},
    as.mapM f = .ok bs ↔ List.Forall₂ (fun a b => f a = .ok b) as bs
  | [], bs => by
      rw [List.mapM_nil, List.forall₂_nil_left_iff]
      exact ⟨fun h => (Except.ok.inj h).symm, fun h => h ▸ rfl⟩
  | a :: as, bs => by
      simp only [List.mapM_cons, bind_eq_ok, mapM_eq_ok, List.forall₂_cons_left_iff]
      constructor
      · rintro ⟨b, hb, bs, hbs, ⟨⟩⟩
        exact ⟨b, bs, hb, hbs, rfl⟩
      · rintro ⟨b, bs, hb, hbs, rfl⟩
        exact ⟨b, hb, bs, hbs, rfl⟩

/-- A list can be read just if each item can. -/
theorem exists_mapM_iff : ∀ {as : List α},
    (∃ bs, as.mapM f = .ok bs) ↔ ∀ a ∈ as, ∃ b, f a = .ok b
  | [] => iff_of_true ⟨[], rfl⟩ (by simp)
  | a :: as => by
      simp only [List.forall_mem_cons, ← exists_mapM_iff, List.mapM_cons, bind_eq_ok]
      constructor
      · rintro ⟨_, b, hb, bs, hbs, -⟩
        exact ⟨⟨b, hb⟩, bs, hbs⟩
      · rintro ⟨⟨b, hb⟩, bs, hbs⟩
        exact ⟨b :: bs, b, hb, bs, hbs, rfl⟩

/-- The fault of a list is that of the first item that cannot be read. -/
theorem mapM_eq_error {e : ε} : ∀ {as : List α}, as.mapM f = .error e ↔
    ∃ before a after, as = before ++ a :: after ∧ f a = .error e
      ∧ ∀ b ∈ before, ∃ c, f b = .ok c
  | [] => by
      refine iff_of_false (by simp [pure, Except.pure]) ?_
      rintro ⟨before, a, after, h, -⟩
      cases before <;> cases h
  | a :: as => by
      rw [List.mapM_cons]
      cases ha : f a with
      | error e' =>
          simp only [bind, Except.bind, Except.error.injEq]
          constructor
          · rintro rfl
            exact ⟨[], a, as, rfl, ha, by simp⟩
          · rintro ⟨before, a', after, h, ha', hbefore⟩
            cases before with
            | nil =>
                obtain ⟨rfl, -⟩ := List.cons.inj h
                exact Except.error.inj (ha.symm.trans ha')
            | cons b before =>
                obtain ⟨rfl, -⟩ := List.cons.inj h
                obtain ⟨c, hc⟩ := hbefore a (List.mem_cons_self ..)
                cases ha.symm.trans hc
      | ok b =>
          have hrest : (Except.ok b >>= fun b => as.mapM f >>= fun bs => pure (b :: bs))
              = .error e ↔ as.mapM f = .error e := by
            cases as.mapM f <;> simp [bind, Except.bind, pure, Except.pure]
          rw [hrest, mapM_eq_error]
          constructor
          · rintro ⟨before, a', after, rfl, ha', hbefore⟩
            exact ⟨a :: before, a', after, rfl, ha',
              List.forall_mem_cons.mpr ⟨⟨b, ha⟩, hbefore⟩⟩
          · rintro ⟨before, a', after, h, ha', hbefore⟩
            cases before with
            | nil =>
                obtain ⟨rfl, -⟩ := List.cons.inj h
                cases ha.symm.trans ha'
            | cons _ before =>
                obtain ⟨rfl, rfl⟩ := List.cons.inj h
                exact ⟨before, a', after, rfl, ha', (List.forall_mem_cons.mp hbefore).2⟩

end Result

section Ordered

variable {α : Type} {key : α → Nat}

/-- Of items in order, those before one are the smaller ones. -/
theorem mem_before_iff {before after : List α} {a b : α}
    (h : (before ++ a :: after).Pairwise (key · < key ·)) :
    b ∈ before ↔ b ∈ before ++ a :: after ∧ key b < key a := by
  obtain ⟨-, hafter, hbefore⟩ := List.pairwise_append.mp h
  constructor
  · intro hb
    exact ⟨List.mem_append_left _ hb, hbefore b hb a (List.mem_cons_self ..)⟩
  · rintro ⟨hb, hlt⟩
    rcases List.mem_append.mp hb with hb | hb
    · exact hb
    · rcases List.mem_cons.mp hb with rfl | hb
      · exact absurd hlt (Nat.lt_irrefl _)
      · exact absurd hlt (Nat.lt_asymm ((List.pairwise_cons.mp hafter).1 b hb))

/-- Everything before an item is of some sort just if everything smaller
is. -/
theorem exists_split_iff {as : List α} (h : as.Pairwise (key · < key ·)) {p q : α → Prop} :
    (∃ before a after, as = before ++ a :: after ∧ p a ∧ ∀ b ∈ before, q b)
      ↔ ∃ a ∈ as, p a ∧ ∀ b ∈ as, key b < key a → q b := by
  constructor
  · rintro ⟨before, a, after, rfl, ha, hbefore⟩
    exact ⟨a, by simp, ha, fun b hb hlt => hbefore b ((mem_before_iff h).mpr ⟨hb, hlt⟩)⟩
  · rintro ⟨a, hmem, ha, hsmaller⟩
    obtain ⟨before, after, rfl⟩ := List.append_of_mem hmem
    refine ⟨before, a, after, rfl, ha, fun b hb => ?_⟩
    obtain ⟨hb, hlt⟩ := (mem_before_iff h).mp hb
    exact hsmaller b hb hlt

end Ordered

end Conformance
