import Conformance.NameService

/-!
# What a name service says in the end

A look-up that needs more room is repeated, so one of its answers counts
(`NameService.Settles`). By that answer the service knows an id, does not
know it, or fails (`Knows`, `Unknown`, `Breaks`), and that is what looking
up a name gives. Whatever effect a look-up has, what comes after it is
decided by its answer alone (`resolveWith_eq`).
-/

namespace Conformance.NameService

variable {service : NameService} {kind : IdentityKind} {id length : Nat}

/-- The answer that counts, looking up with buffers from some length on: a
buffer that is too short is followed by a longer one, up to the longest. -/
inductive Settles (service : NameService) (kind : IdentityKind) (id : Nat) :
    Nat → Answer → Prop
  | here {length : Nat}
    (hlast : service.lookup kind id length = .failed .range → maxBuffer ≤ length) :
    Settles service kind id length (service.lookup kind id length)
  | longer {length : Nat} {a : Answer} (hrange : service.lookup kind id length = .failed .range)
    (hshort : length < maxBuffer) (hnext : Settles service kind id (length * 2) a) :
    Settles service kind id length a

/-- The errors by which a service says that it does not know an id. -/
def unknownErrors : List Errno := [.noEntry, .noProcess, .badFile, .notPermitted]

/-- The service has a name for an id. -/
def Knows (service : NameService) (kind : IdentityKind) (id : Nat) : Prop :=
  ∃ name, service.Settles kind id firstBuffer (.found name)

/-- The service does not know an id. -/
def Unknown (service : NameService) (kind : IdentityKind) (id : Nat) : Prop :=
  service.Settles kind id firstBuffer .nothing
    ∨ ∃ e ∈ unknownErrors, service.Settles kind id firstBuffer (.failed e)

/-- Looking an id up fails. -/
def Breaks (service : NameService) (kind : IdentityKind) (id : Nat) (e : Errno) : Prop :=
  service.Settles kind id firstBuffer (.failed e) ∧ e ∉ unknownErrors

theorem meansUnknown_iff {e : Errno} : meansUnknown e = true ↔ e ∈ unknownErrors := by
  simp [meansUnknown, unknownErrors, or_assoc]

/-- What an answer amounts to that no longer buffer is tried after. -/
def Answer.outcome : Answer → Except Errno (Option String)
  | .found name => .ok (some (Utf8.lossy name))
  | .nothing => .ok none
  | .failed e => if meansUnknown e then .ok none else .error e

/-- An answer after which a longer buffer is tried. -/
abbrev Answer.Again (a : Answer) (length : Nat) : Prop :=
  a = .failed .range ∧ 0 < length ∧ length < maxBuffer

/-- One look-up, and then what its answer asks for. -/
theorem resolveWith_eq {m : Type → Type} [Monad m]
    (lookup : IdentityKind → Nat → Nat → m Answer) (kind : IdentityKind) (id length : Nat) :
    resolveWith lookup kind id length = lookup kind id length >>= fun a =>
      if a.Again length then resolveWith lookup kind id (length * 2) else pure a.outcome := by
  rw [resolveWith]
  refine congrArg (lookup kind id length >>= ·) (funext fun a => ?_)
  cases a with
  | found name => rfl
  | nothing => rfl
  | failed e =>
      by_cases he : e = .range ∧ 0 < length ∧ length < maxBuffer
      · have hagain : (Answer.failed e).Again length := ⟨congrArg _ he.1, he.2⟩
        rw [if_pos hagain]
        exact dif_pos he
      · have hstop : ¬ (Answer.failed e).Again length := fun h => he ⟨Answer.failed.inj h.1, h.2⟩
        rw [if_neg hstop]
        refine (dif_neg he).trans ?_
        by_cases hunknown : meansUnknown e = true <;> simp [Answer.outcome, hunknown]

theorem resolveFrom_of_again (h : (service.lookup kind id length).Again length) :
    service.resolveFrom kind id length = service.resolveFrom kind id (length * 2) := by
  rw [resolveFrom, resolveWith_eq]
  exact congrArg Id.run (if_pos h)

theorem resolveFrom_of_stop (h : ¬ (service.lookup kind id length).Again length) :
    service.resolveFrom kind id length = (service.lookup kind id length).outcome := by
  rw [resolveFrom, resolveWith_eq]
  exact congrArg Id.run (if_neg h)

/-- The name that is looked up is what the answer that counts amounts
to. -/
theorem Settles.resolveFrom_eq {a : Answer} (h : service.Settles kind id length a)
    (hlength : 0 < length) : service.resolveFrom kind id length = a.outcome := by
  induction h with
  | @here length hlast =>
      exact resolveFrom_of_stop fun h => Nat.not_lt.mpr (hlast h.1) h.2.2
  | @longer length a hrange hshort _ ih =>
      rw [resolveFrom_of_again ⟨hrange, hlength, hshort⟩]
      exact ih (Nat.mul_pos hlength Nat.two_pos)

theorem exists_settles (service : NameService) (kind : IdentityKind) (id length : Nat)
    (hlength : 0 < length) : ∃ a, service.Settles kind id length a := by
  by_cases hlast : service.lookup kind id length = .failed .range → maxBuffer ≤ length
  · exact ⟨_, .here hlast⟩
  · obtain ⟨hrange, hshort⟩ := Classical.not_imp.mp hlast
    obtain ⟨a, ha⟩ := exists_settles service kind id (length * 2) (by omega)
    exact ⟨a, .longer hrange (Nat.not_le.mp hshort) ha⟩
termination_by maxBuffer - length
decreasing_by omega

theorem Settles.resolve_eq {a : Answer} (h : service.Settles kind id firstBuffer a) :
    service.resolve kind id = a.outcome :=
  h.resolveFrom_eq (by decide)

theorem exists_answer (service : NameService) (kind : IdentityKind) (id : Nat) :
    ∃ a, service.Settles kind id firstBuffer a ∧ service.resolve kind id = a.outcome := by
  obtain ⟨a, ha⟩ := exists_settles service kind id firstBuffer (by decide)
  exact ⟨a, ha, ha.resolve_eq⟩

theorem resolve_eq_none_iff : service.resolve kind id = .ok none ↔ service.Unknown kind id := by
  constructor
  · intro h
    obtain ⟨a, ha, hresolve⟩ := exists_answer service kind id
    rw [hresolve] at h
    cases a with
    | found name => cases h
    | nothing => exact .inl ha
    | failed e =>
        by_cases he : meansUnknown e = true
        · exact .inr ⟨e, meansUnknown_iff.mp he, ha⟩
        · simp [Answer.outcome, he] at h
  · rintro (h | ⟨e, he, h⟩)
    · exact h.resolve_eq
    · rw [h.resolve_eq, Answer.outcome, if_pos (meansUnknown_iff.mpr he)]

theorem resolve_eq_error_iff {e : Errno} :
    service.resolve kind id = .error e ↔ service.Breaks kind id e := by
  constructor
  · intro h
    obtain ⟨a, ha, hresolve⟩ := exists_answer service kind id
    rw [hresolve] at h
    cases a with
    | found name => cases h
    | nothing => cases h
    | failed e' =>
        by_cases he : meansUnknown e' = true
        · simp [Answer.outcome, he] at h
        · obtain rfl : e' = e := by simpa [Answer.outcome, he] using h
          exact ⟨ha, fun hmem => he (meansUnknown_iff.mpr hmem)⟩
  · rintro ⟨h, he⟩
    rw [h.resolve_eq, Answer.outcome, if_neg fun hmem => he (meansUnknown_iff.mp hmem)]

theorem exists_resolve_iff :
    (∃ name, service.resolve kind id = .ok (some name)) ↔ service.Knows kind id := by
  constructor
  · rintro ⟨name, h⟩
    obtain ⟨a, ha, hresolve⟩ := exists_answer service kind id
    rw [hresolve] at h
    cases a with
    | found bytes => exact ⟨bytes, ha⟩
    | nothing => cases h
    | failed e => by_cases he : meansUnknown e = true <;> simp [Answer.outcome, he] at h
  · rintro ⟨bytes, h⟩
    exact ⟨_, h.resolve_eq⟩

end Conformance.NameService
