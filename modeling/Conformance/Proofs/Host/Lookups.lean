import Mathlib.Algebra.Group.Nat.Defs
import Mathlib.Data.Nat.Find
import Conformance.Proofs.Host.Names

/-!
# How often a name is looked up

Looking a name up makes one look-up after the other, with buffers of twice
the length each time. The look-ups are written down by a service that adds
every query to a log (`recorded`), so the log of a run says what was asked.

As long as all answers ask for more room, the run stands before the next
length with the queries so far in its log (`resolve_after`). The first
answer that does not ask for it ends the run, and so does any answer to the
longest buffer. Since the lengths are the powers of two from `2 ^ 10` to
`2 ^ 20`, there are eleven look-ups at most (`resolve_bounded`).
-/

namespace Conformance.NameService

variable {service : NameService} {kind : IdentityKind} {id length : Nat}

/-- A look-up: of which id, and with a buffer of which length. -/
structure Query where
  kind : IdentityKind
  id : Nat
  length : Nat
  deriving Repr, DecidableEq

/-- A look-up that is written down. -/
def recorded (service : NameService) (kind : IdentityKind) (id length : Nat) :
    StateM (List Query) Answer := do
  modify (· ++ [⟨kind, id, length⟩])
  return service.lookup kind id length

/-- What looking a name up gives, and the queries that it makes. -/
def resolveRecorded (service : NameService) (kind : IdentityKind) (id : Nat) :
    Except Errno (Option String) × List Query :=
  Id.run ((resolveWith service.recorded kind id firstBuffer).run [])

/-- The query with a buffer of the length that was doubled some number of
times. -/
def queryAt (kind : IdentityKind) (id : Nat) (i : Nat) : Query := ⟨kind, id, 2 ^ (10 + i)⟩

/-- The answer to that query. -/
def answerAt (service : NameService) (kind : IdentityKind) (id : Nat) (i : Nat) : Answer :=
  service.lookup kind id (2 ^ (10 + i))

/-! ## Steps -/

theorem recorded_of_again (h : (service.lookup kind id length).Again length) (log : List Query) :
    (resolveWith service.recorded kind id length).run log
      = (resolveWith service.recorded kind id (length * 2)).run (log ++ [⟨kind, id, length⟩]) := by
  rw [resolveWith_eq]
  exact congrArg (fun x : StateM (List Query) _ => x.run (log ++ [⟨kind, id, length⟩])) (if_pos h)

theorem recorded_of_stop (h : ¬ (service.lookup kind id length).Again length)
    (log : List Query) :
    (resolveWith service.recorded kind id length).run log
      = pure ((service.lookup kind id length).outcome, log ++ [⟨kind, id, length⟩]) := by
  rw [resolveWith_eq]
  exact congrArg (fun x : StateM (List Query) _ => x.run (log ++ [⟨kind, id, length⟩])) (if_neg h)

/-- More room is asked for in vain when the buffer is the longest. -/
theorem again_iff {i : Nat} (hi : i ≤ 10) :
    (service.answerAt kind id i).Again (2 ^ (10 + i))
      ↔ service.answerAt kind id i = .failed .range ∧ i < 10 := by
  have hmax : maxBuffer = 2 ^ (10 + 10) := rfl
  have hpos : 0 < 2 ^ (10 + i) := Nat.two_pow_pos _
  rw [Answer.Again, hmax, Nat.pow_lt_pow_iff_right (by decide)]
  refine and_congr_right fun _ => ?_
  omega

/-! ## Runs -/

/-- As long as all answers ask for more room, the run goes on with the next
length. -/
theorem resolve_after : ∀ {k : Nat}, k ≤ 10 →
    (∀ i < k, service.answerAt kind id i = .failed .range) →
    service.resolve kind id = service.resolveFrom kind id (2 ^ (10 + k))
      ∧ service.resolveRecorded kind id
        = Id.run ((resolveWith service.recorded kind id (2 ^ (10 + k))).run
          ((List.range k).map (queryAt kind id)))
  | 0, _, _ => ⟨rfl, rfl⟩
  | k + 1, hk, hshort => by
      obtain ⟨hresolve, hrecorded⟩ := resolve_after (k := k) (by omega) fun i hi =>
        hshort i (Nat.lt_succ_of_lt hi)
      have hagain : (service.answerAt kind id k).Again (2 ^ (10 + k)) :=
        (again_iff (by omega)).mpr ⟨hshort k (Nat.lt_succ_self k), by omega⟩
      have hdouble : 2 ^ (10 + k) * 2 = 2 ^ (10 + (k + 1)) := (Nat.pow_succ ..).symm
      rw [hresolve, hrecorded, resolveFrom_of_again hagain, recorded_of_again hagain, hdouble,
        List.range_succ, List.map_append]
      exact ⟨rfl, rfl⟩

/-- There is a last look-up: the first one that does not ask for more room,
or the one with the longest buffer. -/
theorem exists_last (service : NameService) (kind : IdentityKind) (id : Nat) :
    ∃ n ≤ 10, (∀ i < n, service.answerAt kind id i = .failed .range)
      ∧ (service.answerAt kind id n = .failed .range → n = 10) := by
  have hend : ∃ n, service.answerAt kind id n = .failed .range → n = 10 := ⟨10, fun _ => rfl⟩
  refine ⟨Nat.find hend, Nat.find_min' hend fun _ => rfl, fun i hi => ?_, Nat.find_spec hend⟩
  exact (Classical.not_imp.mp (Nat.find_min hend hi)).1

/-- A name was looked up with buffers that were doubled some number of
times. -/
structure LookedUp (service : NameService) (kind : IdentityKind) (id : Nat) (n : Nat)
    (result : Except Errno (Option String)) (queries : List Query) : Prop where
  bounded : n ≤ 10
  queries : queries = (List.range (n + 1)).map fun i => ⟨kind, id, 2 ^ (10 + i)⟩
  /-- More room was asked for up to the last look-up. -/
  again : ∀ i < n, service.lookup kind id (2 ^ (10 + i)) = .failed .range
  /-- The last one asks for it only with the longest buffer. -/
  last : service.lookup kind id (2 ^ (10 + n)) = .failed .range → n = 10
  found : ∀ name, service.lookup kind id (2 ^ (10 + n)) = .found name →
    result = .ok (some (Utf8.lossy name))
  nothing : service.lookup kind id (2 ^ (10 + n)) = .nothing → result = .ok none
  unknown : ∀ e ∈ unknownErrors, service.lookup kind id (2 ^ (10 + n)) = .failed e →
    result = .ok none
  fails : ∀ e, e ∉ unknownErrors → service.lookup kind id (2 ^ (10 + n)) = .failed e →
    result = .error e

theorem lookedUp_of_last {n : Nat} (hn : n ≤ 10)
    (hshort : ∀ i < n, service.answerAt kind id i = .failed .range)
    (hlast : service.answerAt kind id n = .failed .range → n = 10) :
    LookedUp service kind id n (service.resolve kind id) (service.resolveRecorded kind id).2
      ∧ (service.resolveRecorded kind id).1 = service.resolve kind id := by
  obtain ⟨hresolve, hrecorded⟩ := resolve_after hn hshort
  have hstop : ¬ (service.answerAt kind id n).Again (2 ^ (10 + n)) := fun h => by
    obtain ⟨hrange, hlt⟩ := (again_iff hn).mp h
    exact absurd (hlast hrange) (Nat.ne_of_lt hlt)
  rw [resolveFrom_of_stop hstop] at hresolve
  rw [recorded_of_stop hstop] at hrecorded
  rw [hresolve, hrecorded]
  refine ⟨⟨hn, ?_, hshort, hlast, fun name h => ?_, fun h => ?_, fun e he h => ?_,
    fun e he h => ?_⟩, rfl⟩
  · rw [List.range_succ, List.map_append]
    rfl
  · rw [h]
    rfl
  · rw [h]
    rfl
  · rw [h, Answer.outcome, if_pos (meansUnknown_iff.mpr he)]
  · rw [h, Answer.outcome, if_neg fun hmem => he (meansUnknown_iff.mp hmem)]

/-- **Look-ups of a name.** Looking a name up makes one look-up for each
buffer from `2 ^ 10` on, the next of twice the length, and none after the
first answer that does not ask for more room or the one to the buffer of
`2 ^ 20`. The last answer is what it comes to. So it fails for want of room
just if all eleven buffers are too short. -/
theorem resolve_bounded (service : NameService) (kind : IdentityKind) (id : Nat) :
    (service.resolveRecorded kind id).1 = service.resolve kind id
      ∧ (∃ n, LookedUp service kind id n (service.resolve kind id)
          (service.resolveRecorded kind id).2)
      ∧ (service.resolve kind id = .error .range
        ↔ ∀ i ≤ 10, service.lookup kind id (2 ^ (10 + i)) = .failed .range) := by
  obtain ⟨n, hn, hshort, hlast⟩ := exists_last service kind id
  obtain ⟨hlooked, hsame⟩ := lookedUp_of_last hn hshort hlast
  refine ⟨hsame, ⟨n, hlooked⟩, ?_, fun hall => ?_⟩
  · intro herror i hi
    -- No answer but this one comes to this error.
    have hrange : service.answerAt kind id n = .failed .range := by
      cases ha : service.answerAt kind id n with
      | found name => cases herror.symm.trans (hlooked.found name ha)
      | nothing => cases herror.symm.trans (hlooked.nothing ha)
      | failed e =>
          by_cases he : e ∈ unknownErrors
          · cases herror.symm.trans (hlooked.unknown e he ha)
          · cases herror.symm.trans (hlooked.fails e he ha)
            rfl
    obtain rfl := hlast hrange
    rcases Nat.lt_or_eq_of_le hi with hlt | rfl
    · exact hshort i hlt
    · exact hrange
  · exact hlooked.fails .range (by decide) (hall n hn)

/-- A service that needs a buffer of 4096 is asked three times. -/
example :
    let service : NameService :=
      ⟨fun _ _ length => if length < 4096 then .failed .range else .found (Utf8.encode "long")⟩
    service.resolveRecorded .group 7
      = (.ok (some "long"), [⟨.group, 7, 1024⟩, ⟨.group, 7, 2048⟩, ⟨.group, 7, 4096⟩]) := by
  cbv

end Conformance.NameService
