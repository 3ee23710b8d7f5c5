import Conformance.Proofs.Stream.Validity

/-!
# The groups of a stream

The state of the validator after several parcels (`observeAll`) carries a
whole stream apart: what it reports of two streams one after the other is
what it reports of the first, and then of the second from there
(`violations_append`). In a stream without violation the groups that are
open in the end are those with a part and without a last parcel
(`mem_openGroups_observeAll`).
-/

namespace Conformance

/-- The parcel is in a group in this way: as a part of it or as its last. -/
def Parcel.Joins (p : Parcel) (key : GroupKey) (disposition : Disposition) : Prop :=
  p.sender = key.sender ∧ p.group = some ⟨key.id, disposition⟩

theorem Parcel.joins_iff {p : Parcel} {g : Group} (hg : p.group = some g) {key : GroupKey}
    {disposition : Disposition} :
    p.Joins key disposition ↔ key = ⟨p.sender, g.id⟩ ∧ disposition = g.disposition := by
  obtain ⟨sender, id⟩ := key
  obtain ⟨gid, d⟩ := g
  simp only [Joins, hg, Option.some.injEq, Group.mk.injEq, GroupKey.mk.injEq]
  exact ⟨fun ⟨hs, hid, hd⟩ => ⟨⟨hs.symm, hid.symm⟩, hd.symm⟩,
    fun ⟨⟨hs, hid⟩, hd⟩ => ⟨hs.symm, hid.symm, hd.symm⟩⟩

theorem GroupKey.mem_insert {key k : GroupKey} : ∀ {keys : List GroupKey},
    k ∈ GroupKey.insert key keys ↔ k = key ∨ k ∈ keys
  | [] => by simp [GroupKey.insert]
  | first :: r => by
      have ih : k ∈ GroupKey.insert key r ↔ k = key ∨ k ∈ r := mem_insert
      unfold GroupKey.insert
      split
      · rename_i heq
        simp [heq]
      · split
        · simp
        · rw [List.mem_cons, List.mem_cons, ih]
          exact or_left_comm

namespace StreamValidator

/-- The validator after several parcels. -/
def observeAll (v : StreamValidator) (parcels : List Parcel) : StreamValidator :=
  parcels.foldl (fun v p => (v.observe p).1) v

@[simp] theorem observeAll_nil (v : StreamValidator) : v.observeAll [] = v := rfl

@[simp] theorem observeAll_cons (v : StreamValidator) (p : Parcel) (r : List Parcel) :
    v.observeAll (p :: r) = (v.observe p).1.observeAll r := rfl

theorem violations_append : ∀ (a b : List Parcel) (v : StreamValidator),
    v.violations (a ++ b) = v.violations a ++ (v.observeAll a).violations b
  | [], _, _ => rfl
  | p :: a, b, v => by
      have ih := violations_append a b (v.observe p).1
      rw [List.cons_append, violations, violations, observeAll_cons]
      split <;> rename_i hobs <;> rw [hobs] at ih <;> simp [ih, hobs]

/-! ## Open groups -/

/-- An admitted parcel opens the group that it is a part of, and ends the
one that it is the last of. -/
theorem mem_openGroups_observe {v : StreamValidator} {p : Parcel} (hp : v.Admits p)
    (key : GroupKey) :
    key ∈ (v.observe p).1.openGroups
      ↔ p.Joins key .part ∨ (key ∈ v.openGroups ∧ ¬ p.Joins key .last) := by
  rw [observe_of_rises hp.1, accept]
  cases hg : p.group with
  | none => simp [Parcel.Joins, hg]
  | some g =>
      have hopen : (⟨p.sender, g.id⟩ : GroupKey) ∉ v.closed := hp.2 g hg
      rw [Parcel.joins_iff hg, Parcel.joins_iff hg]
      cases hd : g.disposition with
      | part => simp [observeGroup, hopen, hd, GroupKey.mem_insert]
      | last => simp [observeGroup, hopen, hd]

/-- **Open groups.** After a stream without violation those groups are
open that a parcel is a part of and no parcel is the last of. -/
theorem mem_openGroups_observeAll (key : GroupKey) :
    ∀ (parcels : List Parcel) {v : StreamValidator}, v.violations parcels = [] →
      (key ∈ (v.observeAll parcels).openGroups
        ↔ (key ∈ v.openGroups ∨ ∃ p ∈ parcels, p.Joins key .part)
          ∧ ∀ p ∈ parcels, ¬ p.Joins key .last)
  | [], v, _ => by simp
  | p :: r, v, hvalid => by
      obtain ⟨hadmits, hpair⟩ := (violations_eq_nil_iff _ v).mp hvalid
      have hp := hadmits p (List.mem_cons_self ..)
      obtain ⟨hallows, -⟩ := List.pairwise_cons.mp hpair
      have hrest : (v.observe p).1.violations r = [] := by
        have happ := violations_append [p] r v
        rw [List.singleton_append, hvalid] at happ
        exact (List.append_eq_nil_iff.mp happ.symm).2
      -- Behind the last parcel of a group there is no part of it.
      have hend : p.Joins key .last → ¬ ∃ q ∈ r, q.Joins key .part := by
        rintro ⟨hs, hg⟩ ⟨q, hq, hs', hg'⟩
        exact (hallows q hq).2 _ hg' (hs.trans hs'.symm) hg
      have hone : p.Joins key .part → ¬ p.Joins key .last := by
        rintro ⟨-, hg⟩ ⟨-, hg'⟩
        simp [hg] at hg'
      rw [observeAll_cons, mem_openGroups_observeAll key r hrest, mem_openGroups_observe hp]
      simp only [List.mem_cons, exists_eq_or_imp, forall_eq_or_imp]
      constructor
      · rintro ⟨(hpart | ⟨hopen, hlast⟩) | hpart, hno⟩
        · exact ⟨.inr (.inl hpart), hone hpart, hno⟩
        · exact ⟨.inl hopen, hlast, hno⟩
        · exact ⟨.inr (.inr hpart), fun hlast => hend hlast hpart, hno⟩
      · rintro ⟨hopen | hpart | hpart, hlast, hno⟩
        · exact ⟨.inl (.inr ⟨hopen, hlast⟩), hno⟩
        · exact ⟨.inl (.inl hpart), hno⟩
        · exact ⟨.inr hpart, hno⟩

end StreamValidator

end Conformance
