import Mathlib.Data.List.ReduceOption
import Conformance.Proofs.Capture.Times
import Conformance.Proofs.FileWatch.Passes
import Conformance.Proofs.Stream.Groups

/-!
# The poller keeps the rules of a stream

A run is any list of watches and passes (`PollerCall`). Every pass has
hosts of its own, so nothing is assumed about the files from one look to
the next. A pass that breaks off reports nothing and counts nothing, so
the rules are about the passes that do not.

A run enters the proof by `Numbered` alone: each pass is empty or the
group with the next number, and its parcels count on. That is what one
pass gives (`poll_of_reported`), and each fact about a run is one
induction on it. As long as the counters do not wrap around, the place
of a parcel is its number (`Numbered.getElem?`), and the groups of later
passes have greater numbers (`Numbered.apart`); the rules of the stream
follow.
-/

namespace Conformance.FileWatch

/-- A call of the poller. A pass looks at the watch of a number on the
host of that number. -/
inductive PollerCall where
  | watch (path : Path) (kinds : List AttributeKind)
  | poll (now : Instant) (hosts : Nat → Host)

def PollerCall.Textual : PollerCall → Prop
  | .watch path _ => (Utf8.decode? path).isSome = true
  | .poll _ _ => True

/-- Every time fits that the host gives. -/
def Timely (h : Host) : Prop :=
  ∀ path status, h.status false path = .ok status → ∀ kind, (status.time kind).Fits

def PollerCall.Timely : PollerCall → Prop
  | .watch _ _ => True
  | .poll _ hosts => ∀ n, FileWatch.Timely (hosts n)

namespace Poller

/-- What the passes of a run report, where they do not break off. -/
def answers (p : Poller) : List PollerCall → List (Option (List Parcel))
  | [] => []
  | .watch path kinds :: r => (p.watch path kinds).answers r
  | .poll now hosts :: r => (p.poll now hosts).2 :: (p.poll now hosts).1.answers r

end Poller

/-! ## What a run reports -/

/-- These are all parcels of the group, the last one as such and the
others as parts. -/
def IsGroup (id : UInt64) (pass : List Parcel) : Prop :=
  ∀ (i : Nat) (p : Parcel), pass[i]? = some p →
    p.group = some ⟨id, if i + 1 = pass.length then .last else .part⟩

def Apart (pass other : List Parcel) : Prop :=
  ∀ p ∈ pass, ∀ q ∈ other, ∀ g g', p.group = some g → q.group = some g' → g.id ≠ g'.id

/-- What passes report when they keep the rules of a stream, each as one
group, with numbers that have no gap. -/
structure Orderly (passes : List (List Parcel)) : Prop where
  valid : StreamValidator.validate passes.flatten = []
  /-- After every pass no group is open. -/
  settled : ∀ n, (StreamValidator.empty.observeAll (passes.take n).flatten).openGroups = []
  grouped : ∀ pass ∈ passes, pass ≠ [] → ∃ id, IsGroup id pass
  apart : passes.Pairwise Apart
  numbered : ∀ (i : Nat) (p : Parcel), passes.flatten[i]? = some p →
    p.sequence.major = 1 ∧ p.sequence.minor.toNat = i + 1

/-- Passes that count on from a number of groups and one of parcels: each
reports nothing or the group with the next number. -/
inductive Numbered : UInt64 → UInt64 → List (List Parcel) → Prop where
  | nil {round minor : UInt64} : Numbered round minor []
  | quiet {round minor : UInt64} {passes : List (List Parcel)}
      (rest : Numbered round minor passes) : Numbered round minor ([] :: passes)
  | group {round minor : UInt64} {passes : List (List Parcel)} (now : Instant)
      {payloads : List Bytes} (some_new : payloads ≠ [])
      (rest : Numbered (round + 1) (minor + UInt64.ofNat payloads.length) passes) :
      Numbered round minor (parcels now (round + 1) minor payloads :: passes)

/-- The passes of every run count on from the poller. -/
theorem Poller.answers_numbered : ∀ (calls : List PollerCall) (p : Poller),
    Numbered p.round p.minor (p.answers calls).reduceOption
  | [], _ => .nil
  | .watch path kinds :: r, p => answers_numbered r (p.watch path kinds)
  | .poll now hosts :: r, p => by
      have hrest := answers_numbered r (p.poll now hosts).1
      rcases reported_or_stuck hosts p.watches 0 with
        hall | ⟨before, w, after, hwatches, hbefore, hstuck⟩
      · rw [answers]
        rw [poll_of_reported hall now] at hrest ⊢
        rw [List.reduceOption_cons_of_some]
        generalize (Poller.answers _ r).reduceOption = passes at hrest ⊢
        by_cases hnew : news hosts 0 p.watches = []
        · rw [hnew] at hrest ⊢
          exact .quiet (by simpa using hrest)
        · rw [if_neg hnew] at hrest
          exact .group now hnew hrest
      · rw [answers]
        rw [poll_of_stuck hwatches hbefore hstuck now] at hrest ⊢
        exact hrest

/-- Where all times fit, every state of texts can be reported. -/
theorem Poller.reported_of_timely {p : Poller} (hp : p.Textual) {hosts : Nat → Host}
    (htimely : ∀ n, Timely (hosts n)) : Reported hosts p.watches 0 := by
  refine reported_iff.mpr fun n w hw hstuck => ?_
  rcases hstuck with ⟨hpath, -⟩ | ⟨hcapture⟩
  · exact hpath (hp w (List.mem_of_getElem? hw))
  · obtain ⟨status, hstatus, -, hfar, -⟩ := ((hosts n).capture_times w.path w.kinds).2 _ |>.mp hcapture
    exact hfar (htimely n w.path status hstatus _)

theorem Poller.answers_complete : ∀ (calls : List PollerCall) {p : Poller}, p.Textual →
    (∀ call ∈ calls, call.Textual ∧ call.Timely) →
      p.answers calls = (p.answers calls).reduceOption.map some
  | [], _, _, _ => rfl
  | .watch path kinds :: r, p, hp, hcalls => by
      obtain ⟨⟨hpath, -⟩, hrest⟩ := List.forall_mem_cons.mp hcalls
      exact answers_complete r (textual_watch hp hpath kinds) hrest
  | .poll now hosts :: r, p, hp, hcalls => by
      obtain ⟨⟨-, htimely⟩, hrest⟩ := List.forall_mem_cons.mp hcalls
      have ih := answers_complete r (textual_poll hp now hosts) hrest
      rw [answers]
      rw [poll_of_reported (reported_of_timely hp htimely) now] at ih ⊢
      rw [List.reduceOption_cons_of_some, List.map_cons, ← ih]

/-! ## Numbers -/

theorem toNat_add_ofNat {a : UInt64} {n : Nat} (h : a.toNat + n < 2 ^ 64) :
    (a + UInt64.ofNat n).toNat = a.toNat + n := by
  rw [UInt64.toNat_add, UInt64.toNat_ofNat', Nat.mod_eq_of_lt (show n < 2 ^ 64 by omega),
    Nat.mod_eq_of_lt h]

theorem parcels_isGroup (now : Instant) (round minor : UInt64) (payloads : List Bytes) :
    IsGroup round (parcels now round minor payloads) := by
  intro i p hp
  rw [parcels_getElem?] at hp
  obtain ⟨payload, -, rfl⟩ := Option.map_eq_some_iff.mp hp
  rw [length_parcels]
  rfl

theorem IsGroup.id_eq {id : UInt64} {pass : List Parcel} (h : IsGroup id pass) {p : Parcel}
    (hp : p ∈ pass) {g : Group} (hg : p.group = some g) : g.id = id := by
  obtain ⟨i, hi⟩ := List.mem_iff_getElem?.mp hp
  rw [h i p hi] at hg
  exact congrArg Group.id (Option.some.inj hg).symm

namespace Numbered

variable {round minor : UInt64} {passes : List (List Parcel)}

theorem take (h : Numbered round minor passes) : ∀ n, Numbered round minor (passes.take n) := by
  induction h with
  | nil => exact fun n => by rw [List.take_nil]; exact .nil
  | quiet rest ih =>
      intro n
      cases n with
      | zero => exact .nil
      | succ n => exact .quiet (ih n)
  | group now some_new rest ih =>
      intro n
      cases n with
      | zero => exact .nil
      | succ n => exact .group now some_new (ih n)

theorem getElem? (h : Numbered round minor passes)
    (hbound : minor.toNat + passes.flatten.length < 2 ^ 64) :
    ∀ (i : Nat) (p : Parcel), passes.flatten[i]? = some p →
      p.sender = name ∧ p.sequence.major = 1 ∧ p.sequence.minor.toNat = minor.toNat + (i + 1) := by
  induction h with
  | nil => simp
  | quiet rest ih => exact ih hbound
  | @group round minor passes now payloads some_new rest ih =>
      intro i p hp
      rw [List.flatten_cons, List.length_append, length_parcels] at hbound
      rw [List.flatten_cons, List.getElem?_append, length_parcels] at hp
      -- The parcel is one of this pass, or of a later one, which counts on.
      split at hp
      · rename_i hi
        rw [parcels_getElem?] at hp
        obtain ⟨payload, -, rfl⟩ := Option.map_eq_some_iff.mp hp
        exact ⟨rfl, rfl, toNat_add_ofNat (by omega)⟩
      · have hcount : (minor + UInt64.ofNat payloads.length).toNat
            = minor.toNat + payloads.length := toNat_add_ofNat (by omega)
        obtain ⟨hsender, hmajor, hminor⟩ := ih (by omega) _ p hp
        exact ⟨hsender, hmajor, by omega⟩

/-- Every parcel is in a group of a number that was not reached yet. -/
theorem round_lt (h : Numbered round minor passes)
    (hbound : round.toNat + passes.flatten.length < 2 ^ 64) :
    ∀ p ∈ passes.flatten, ∀ g, p.group = some g → round.toNat < g.id.toNat := by
  induction h with
  | nil => simp
  | quiet rest ih => exact ih hbound
  | @group round minor passes now payloads some_new rest ih =>
      intro p hp g hg
      -- This pass has a parcel, so the bound on parcels is one on groups.
      have hsome := List.length_pos_iff.mpr some_new
      rw [List.flatten_cons, List.length_append, length_parcels] at hbound
      have hround : (round + 1).toNat = round.toNat + 1 := toNat_add_ofNat (n := 1) (by omega)
      rw [List.flatten_cons, List.mem_append] at hp
      rcases hp with hp | hp
      · rw [(parcels_isGroup now _ _ _).id_eq hp hg]
        omega
      · have := ih (by omega) p hp g hg
        omega

theorem grouped (h : Numbered round minor passes) :
    ∀ pass ∈ passes, pass ≠ [] → ∃ id, IsGroup id pass := by
  induction h with
  | nil => simp
  | quiet rest ih => simpa using ih
  | @group round minor passes now payloads some_new rest ih =>
      rintro pass (_ | ⟨_, hpass⟩) hne
      · exact ⟨round + 1, parcels_isGroup now _ _ _⟩
      · exact ih pass hpass hne

theorem apart (h : Numbered round minor passes)
    (hbound : round.toNat + passes.flatten.length < 2 ^ 64) : passes.Pairwise Apart := by
  induction h with
  | nil => exact .nil
  | quiet rest ih => exact List.pairwise_cons.mpr ⟨fun _ _ => by simp [Apart], ih hbound⟩
  | @group round minor passes now payloads some_new rest ih =>
      have hsome := List.length_pos_iff.mpr some_new
      rw [List.flatten_cons, List.length_append, length_parcels] at hbound
      have hround : (round + 1).toNat = round.toNat + 1 := toNat_add_ofNat (n := 1) (by omega)
      refine List.pairwise_cons.mpr ⟨?_, ih (by omega)⟩
      intro other hother p hp q hq g g' hg hg' hsame
      -- The later pass counts on from this group, and its own are greater.
      have hlt := rest.round_lt (by omega) q (List.mem_flatten.mpr ⟨other, hother, hq⟩) g' hg'
      rw [← hsame, (parcels_isGroup now _ _ _).id_eq hp hg] at hlt
      exact Nat.lt_irrefl _ hlt

end Numbered

/-! ## The rules of a stream -/

/-- No parcel follows the last one of its group, if every pass is a group
and no two share one. -/
theorem groupsEnd_flatten : ∀ {passes : List (List Parcel)},
    (∀ pass ∈ passes, pass ≠ [] → ∃ id, IsGroup id pass) → passes.Pairwise Apart →
      GroupsEnd passes.flatten
  | [], _, _ => by simp [GroupsEnd]
  | pass :: passes, hgroup, hapart => by
      intro i j p q g g' hij hp hq hs hg hg' hid hlast
      obtain ⟨hfirst, hrest⟩ := List.pairwise_cons.mp hapart
      rw [List.flatten_cons, List.getElem?_append] at hp hq
      by_cases hi : i < pass.length
      · rw [if_pos hi] at hp
        by_cases hj : j < pass.length
        · -- Only the last place of a pass holds the last parcel.
          obtain ⟨id, hpass⟩ := hgroup pass (List.mem_cons_self ..)
            (List.length_pos_iff.mp (by omega))
          rw [hpass i p hp, if_neg (by omega)] at hg
          obtain rfl := Option.some.inj hg
          cases hlast
        · rw [if_neg hj] at hq
          obtain ⟨other, hother, hmem⟩ := List.mem_flatten.mp (List.mem_of_getElem? hq)
          exact hfirst other hother p (List.mem_of_getElem? hp) q hmem g g' hg hg' hid
      · rw [if_neg hi] at hp
        rw [if_neg (by omega)] at hq
        exact groupsEnd_flatten (fun other hother => hgroup other (List.mem_cons_of_mem _ hother))
          hrest (i - pass.length) (j - pass.length) p q g g' (by omega) hp hq hs hg hg' hid hlast

theorem exists_last {passes : List (List Parcel)}
    (hgroup : ∀ pass ∈ passes, pass ≠ [] → ∃ id, IsGroup id pass)
    (hsender : ∀ p ∈ passes.flatten, p.sender = name) {key : GroupKey} {d : Disposition}
    {p : Parcel} (hp : p ∈ passes.flatten) (hjoins : p.Joins key d) :
    ∃ q ∈ passes.flatten, q.Joins key .last := by
  obtain ⟨pass, hpass, hmem⟩ := List.mem_flatten.mp hp
  obtain ⟨id, hid⟩ := hgroup pass hpass (List.ne_nil_of_mem hmem)
  have hkey : key.id = id := hid.id_eq hmem hjoins.2
  have hlen : 0 < pass.length := List.length_pos_of_mem hmem
  -- A group ends with the pass that reports it.
  obtain ⟨q, hq⟩ : ∃ q, pass[pass.length - 1]? = some q :=
    ⟨_, List.getElem?_eq_getElem (by omega)⟩
  have hqmem : q ∈ passes.flatten := List.mem_flatten.mpr ⟨pass, hpass, List.mem_of_getElem? hq⟩
  refine ⟨q, hqmem, ?_, ?_⟩
  · rw [hsender q hqmem, ← hsender p hp, hjoins.1]
  · rw [hid _ q hq, if_pos (by omega), hkey]

namespace Numbered

variable {passes : List (List Parcel)}

theorem sender (h : Numbered 0 0 passes) (hbound : passes.flatten.length < 2 ^ 64) :
    ∀ p ∈ passes.flatten, p.sender = name := by
  intro p hp
  obtain ⟨i, hi⟩ := List.mem_iff_getElem?.mp hp
  exact (h.getElem? (by simpa using hbound) i p hi).1

theorem validate_eq_nil (h : Numbered 0 0 passes) (hbound : passes.flatten.length < 2 ^ 64) :
    StreamValidator.validate passes.flatten = [] := by
  rw [StreamValidator.validate_eq_nil_iff]
  -- The sequences rise because the numbers do.
  refine ⟨?_, groupsEnd_flatten h.grouped (h.apart (by simpa using hbound))⟩
  intro i j p q hij hp hq _
  obtain ⟨-, hmajor, hminor⟩ := h.getElem? (by simpa using hbound) i p hp
  obtain ⟨-, hmajor', hminor'⟩ := h.getElem? (by simpa using hbound) j q hq
  exact .inr ⟨hmajor.trans hmajor'.symm, UInt64.lt_iff_toNat_lt.mpr (by omega)⟩

theorem openGroups_eq_nil (h : Numbered 0 0 passes) (hbound : passes.flatten.length < 2 ^ 64) :
    (StreamValidator.empty.observeAll passes.flatten).openGroups = [] := by
  refine List.eq_nil_iff_forall_not_mem.mpr fun key hopen => ?_
  -- An open group has a part and lacks its last parcel.
  obtain ⟨hpart, hlast⟩ := (StreamValidator.mem_openGroups_observeAll key _
    (h.validate_eq_nil hbound)).mp hopen
  rcases hpart with hempty | ⟨p, hp, hjoins⟩
  · exact List.not_mem_nil hempty
  · obtain ⟨q, hq, hjoins'⟩ := exists_last h.grouped (h.sender hbound) hp hjoins
    exact hlast q hq hjoins'

theorem orderly (h : Numbered 0 0 passes) (hbound : passes.flatten.length < 2 ^ 64) :
    Orderly passes where
  valid := h.validate_eq_nil hbound
  settled n := by
    -- The first passes are a run of their own.
    have hsplit : passes.flatten = (passes.take n).flatten ++ (passes.drop n).flatten := by
      rw [← List.flatten_append, List.take_append_drop]
    rw [hsplit, List.length_append] at hbound
    exact (h.take n).openGroups_eq_nil (by omega)
  grouped := h.grouped
  apart := h.apart (by simpa using hbound)
  numbered i p hp := by
    obtain ⟨-, hmajor, hminor⟩ := h.getElem? (by simpa using hbound) i p hp
    exact ⟨hmajor, by simpa using hminor⟩

end Numbered

/-- **The poller keeps the rules of a stream.** Whatever happens to the
files before, during and between passes, the parcels of all passes break
no rule, every pass is a group of its own, and the numbers have no gap. No
pass over texts breaks off as long as the times of files fit. -/
theorem answers_orderly (calls : List PollerCall) :
    let passes := (Poller.empty.answers calls).reduceOption
    (passes.flatten.length < 2 ^ 64 → Orderly passes)
      ∧ ((∀ call ∈ calls, call.Textual ∧ call.Timely) →
        Poller.empty.answers calls = passes.map some) :=
  ⟨(Poller.answers_numbered calls .empty).orderly,
    Poller.answers_complete calls fun _ hw => (List.not_mem_nil hw).elim⟩

namespace ChangingFiles

def host (names : List String) : Host := filesAtRoot (names.map Utf8.encode)

theorem timely (names : List String) : Timely (host names) := by
  have hfits : FileTime.Fits ⟨0, 0⟩ := ⟨by decide, by decide⟩
  intro path status hstatus kind
  unfold Host.status at hstatus
  split at hstatus
  · cases hstatus
  · obtain ⟨found, -, rfl⟩ := Result.map_eq_ok.mp hstatus
    cases kind <;> exact hfits

/-- Two passes over two watches, and one more with a third watch, during
which a file appears. -/
def calls : List PollerCall := [
  .watch (Path.ofText "/a") [.fileType],
  .watch (Path.ofText "/b") [],
  .poll ⟨0, 0⟩ fun _ => host ["a"],
  .poll ⟨1, 0⟩ fun _ => host ["a"],
  .watch (Path.ofText "/a") [],
  .poll ⟨2, 0⟩ fun n => if n = 0 then host [] else host ["a", "b"]]

theorem lengths :
    (Poller.empty.answers calls).map (Option.map List.length) = [2, 0, 3].map some := by
  cbv

end ChangingFiles

theorem answers_orderly_changingFiles :
    (∀ call ∈ ChangingFiles.calls, call.Textual ∧ call.Timely)
      ∧ ∃ passes : List (List Parcel),
        Poller.empty.answers ChangingFiles.calls = passes.map some
          ∧ passes.map List.length = [2, 0, 3] ∧ Orderly passes := by
  have hcalls : ∀ call ∈ ChangingFiles.calls, call.Textual ∧ call.Timely := by
    simp only [ChangingFiles.calls, List.forall_mem_cons, PollerCall.Textual, PollerCall.Timely,
      true_and, and_true, ChangingFiles.timely, implies_true]
    refine ⟨by decide +kernel, by decide +kernel, by decide +kernel, fun n => ?_, by simp⟩
    split <;> exact ChangingFiles.timely _
  obtain ⟨horderly, hcomplete⟩ := answers_orderly ChangingFiles.calls
  have hanswers := hcomplete hcalls
  generalize (Poller.empty.answers ChangingFiles.calls).reduceOption = passes at horderly hanswers
  have hlengths : passes.map List.length = [2, 0, 3] := by
    have h := ChangingFiles.lengths
    rw [hanswers, List.map_map] at h
    refine (List.map_inj_right fun _ _ => Option.some.inj).mp ?_
    rw [List.map_map]
    exact h
  refine ⟨hcalls, passes, hanswers, hlengths, horderly ?_⟩
  rw [List.length_flatten, hlengths]
  decide

end Conformance.FileWatch
