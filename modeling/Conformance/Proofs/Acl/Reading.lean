import Conformance.Acl.Attribute
import Conformance.Proofs.Host.Names
import Conformance.Proofs.Traversal

/-!
# How the list of a file is read

The two calls that read a list may fail, and a read that finds the list
grown is made again: in the end there is an error (`Reading.FailsWith`) or
there are bytes (`Reading.Holds`). Two of the errors say that the file has
no list of its own, the others are faults (`stored_eq_error_iff`). The
entries of a list are shown one after the other, and one cannot be shown
if the service does not know whom it names (`exists_resolveEntry_iff`).
-/

namespace Conformance.Acl

/-- The query of the length or the read fails with an error. A read that
fails because the list has grown is not among them: it is made again. -/
inductive Reading.FailsWith : Reading → Errno → Prop
  | query {e : Errno} : FailsWith (.queryFails e) e
  | read {e : Errno} (hroom : e ≠ .range) : FailsWith (.readFails e) e
  | grew {next : Reading} {e : Errno} (h : FailsWith next e) : FailsWith (.grew next) e

/-- The bytes that a reading ends with. -/
inductive Reading.Holds : Reading → Bytes → Prop
  | done {raw : Bytes} : Holds (.done raw) raw
  | grew {next : Reading} {raw : Bytes} (h : Holds next raw) : Holds (.grew next) raw

/-- A reading that can take place: one does not end with the error of a
read that has to be made again. -/
def Reading.Complete : Reading → Prop
  | .readFails e => e ≠ .range
  | .grew next => next.Complete
  | .queryFails _ | .done _ => True

/-- The errors that say that a file has no list of its own. -/
def absentErrors : List Errno := [.noData, .notSupported]

theorem meansAbsent_iff {e : Errno} : meansAbsent e = true ↔ e ∈ absentErrors := by
  simp [meansAbsent, absentErrors]

/-- What a call that fails says of the list. -/
theorem absent_eq_error_iff {e e' : Errno} :
    (if meansAbsent e then .ok none else .error e : Except Errno (Option Bytes)) = .error e'
      ↔ e = e' ∧ e' ∉ absentErrors := by
  by_cases he : meansAbsent e = true
  · refine iff_of_false (by simp [he]) ?_
    rintro ⟨rfl, hpresent⟩
    exact hpresent (meansAbsent_iff.mp he)
  · rw [if_neg he, Except.error.injEq]
    refine (and_iff_left_of_imp ?_).symm
    rintro rfl hmem
    exact he (meansAbsent_iff.mpr hmem)

theorem stored_eq_error_iff {e : Errno} : ∀ {reading : Reading}, reading.Complete →
    (reading.stored = .error e ↔ reading.FailsWith e ∧ e ∉ absentErrors)
  | .queryFails e', _ => by
      rw [Reading.stored, absent_eq_error_iff]
      refine and_congr_left fun _ => ⟨?_, ?_⟩
      · rintro rfl
        exact .query
      · rintro ⟨⟩
        rfl
  | .readFails e', hcomplete => by
      rw [Reading.stored, absent_eq_error_iff]
      refine and_congr_left fun _ => ⟨?_, ?_⟩
      · rintro rfl
        exact .read hcomplete
      · rintro ⟨⟩
        rfl
  | .grew next, hcomplete => by
      have hnext : next.Complete := hcomplete
      rw [Reading.stored, stored_eq_error_iff hnext]
      refine and_congr_left fun _ => ⟨.grew, ?_⟩
      rintro ⟨⟩
      assumption
  | .done raw, _ => by
      refine iff_of_false (by simp [Reading.stored]) ?_
      rintro ⟨⟨⟩, -⟩

theorem stored_eq_some_iff {raw : Bytes} : ∀ {reading : Reading},
    reading.stored = .ok (some raw) ↔ reading.Holds raw
  | .queryFails e | .readFails e => by
      refine iff_of_false ?_ nofun
      by_cases he : meansAbsent e = true <;> simp [Reading.stored, he]
  | .grew next => by
      rw [Reading.stored, stored_eq_some_iff]
      refine ⟨.grew, ?_⟩
      rintro ⟨⟩
      assumption
  | .done raw' => by
      rw [Reading.stored]
      constructor
      · rintro ⟨⟩
        exact .done
      · rintro ⟨⟩
        rfl

theorem resolve_eq_mapM (names : NameService) : ∀ es : List StoredEntry,
    resolve names es = es.mapM (resolveEntry names)
  | [] => rfl
  | e :: r => by
      rw [resolve, List.mapM_cons, resolve_eq_mapM names r]
      cases resolveEntry names e with
      | error fault => rfl
      | ok entry => cases r.mapM (resolveEntry names) <;> rfl

/-- An entry can be shown that names nobody, or somebody whom the service
knows. -/
theorem exists_resolveEntry_iff {names : NameService} {e : StoredEntry} :
    (∃ entry, resolveEntry names e = .ok entry)
      ↔ ∀ id, e.id = some id → names.Knows (identityKind e.tag) id := by
  obtain ⟨tag, id?, perms⟩ := e
  cases id? with
  | none => exact iff_of_true ⟨_, rfl⟩ nofun
  | some id =>
      simp only [Option.some.injEq, forall_eq', ← NameService.exists_resolve_iff, resolveEntry]
      cases hname : names.resolve (identityKind tag) id with
      | error errno => simp
      | ok name? => cases name? <;> simp

end Conformance.Acl
