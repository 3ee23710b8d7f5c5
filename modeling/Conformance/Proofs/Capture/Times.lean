import Conformance.Proofs.Capture.Snapshots

/-!
# Times of a snapshot

A status gives a time in seconds and nanoseconds, a snapshot gives it in
milliseconds, rounded down, also before 1970. The seconds are multiplied
first, so a time fits if that product and the sum have room in 64 bits
(`FileTime.Fits`); just then it has milliseconds, and they are exact
(`FileTime.millis?_eq_some`). At a time that does not fit a capture breaks
off, unless a kind before it has failed (`Host.capture_times`).
-/

namespace Conformance

theorem int64?_eq_some {n m : Int} : int64? n = some m ↔ n = m ∧ -2 ^ 63 ≤ n ∧ n < 2 ^ 63 := by
  rw [int64?, Option.ite_none_right_eq_some, Option.some.injEq, and_comm]
  norm_num

namespace FileTime

variable {t : FileTime}

/-- The nanoseconds since 1970. -/
def allNanos (t : FileTime) : Int := t.seconds.toInt * 1000000000 + t.nanos.toNat

/-- The milliseconds since 1970, rounded down. -/
def wholeMillis (t : FileTime) : Int := t.allNanos.fdiv 1000000

/-- The product and the sum have room. Below, the product is the smaller
of the two, and so in the first second of all some times do not fit whose
milliseconds would. -/
def Fits (t : FileTime) : Prop := -2 ^ 63 ≤ t.seconds.toInt * 1000 ∧ t.wholeMillis < 2 ^ 63

theorem wholeMillis_eq (t : FileTime) :
    t.wholeMillis = t.seconds.toInt * 1000 + (t.nanos.toNat / 1000000 : Nat) := by
  rw [wholeMillis, allNanos, Int.fdiv_eq_ediv_of_nonneg _ (by decide)]
  omega

theorem millis?_eq_some {millis : Int} :
    t.millis? = some millis ↔ t.Fits ∧ millis = t.wholeMillis := by
  have hwhole := t.wholeMillis_eq
  simp only [millis?, Option.bind_eq_some_iff, int64?_eq_some, Fits]
  constructor
  · rintro ⟨product, ⟨rfl, hlow, -⟩, hsum, -, hhigh⟩
    exact ⟨⟨hlow, by omega⟩, by omega⟩
  · rintro ⟨⟨hlow, hhigh⟩, rfl⟩
    exact ⟨_, ⟨rfl, hlow, by omega⟩, hwhole.symm, by omega, by omega⟩

theorem millis?_eq_none : t.millis? = none ↔ ¬ t.Fits := by
  rw [Option.eq_none_iff_forall_ne_some]
  simp only [ne_eq, millis?_eq_some, not_and]
  exact ⟨fun h hfits => h _ hfits rfl, fun h _ hfits => absurd hfits h⟩

end FileTime

namespace Capture

variable {h : Host} {path : Path} {status : Status} {kind : TimestampKind}

theorem read_timestamp_eq_ok {a : Attribute} : read h path status (.timestamp kind) = .ok a
    ↔ (status.time kind).Fits ∧ a = .timestamp ⟨kind, (status.time kind).wholeMillis⟩ := by
  rw [read_timestamp]
  cases hmillis : (status.time kind).millis? with
  | some millis =>
      obtain ⟨hfits, rfl⟩ := FileTime.millis?_eq_some.mp hmillis
      simp [hfits, eq_comm]
  | none => simp [FileTime.millis?_eq_none.mp hmillis]

theorem read_eq_overflow {k : AttributeKind} : read h path status k = .error (.overflow kind)
    ↔ k = .timestamp kind ∧ ¬ (status.time kind).Fits := by
  cases k with
  | fileType | permissions => simp [read]
  | identity _ | acl => simp [read, Result.mapError_eq_error]
  | timestamp kind' =>
      rw [read_timestamp]
      cases hmillis : (status.time kind').millis? with
      | some millis =>
          obtain ⟨hfits, -⟩ := FileTime.millis?_eq_some.mp hmillis
          simp only [reduceCtorEq, AttributeKind.timestamp.injEq, false_iff, not_and_not_right]
          rintro rfl
          exact hfits
      | none =>
          have hfits := FileTime.millis?_eq_none.mp hmillis
          simp only [Except.error.injEq, CaptureStop.overflow.injEq,
            AttributeKind.timestamp.injEq, iff_self_and]
          rintro rfl
          exact hfits

end Capture

namespace Host

/-- **Times.** The times of a snapshot are exact, and fit. A capture breaks
off at a time that was asked for just if it does not fit and all kinds
before it can be read. -/
theorem capture_times (h : Host) (path : Path) (kinds : List AttributeKind) :
    (∀ s, h.capture path kinds = .ok s → ∃ status, h.status false path = .ok status
      ∧ ∀ kind, .timestamp kind ∈ kinds → (status.time kind).Fits
        ∧ s.get? (.timestamp kind)
          = some (.timestamp ⟨kind, (status.time kind).wholeMillis⟩))
      ∧ ∀ kind, h.capture path kinds = .error (.overflow kind)
        ↔ ∃ status, h.status false path = .ok status
          ∧ .timestamp kind ∈ kinds ∧ ¬ (status.time kind).Fits
          ∧ ∀ k ∈ kinds, k.rank < (AttributeKind.timestamp kind).rank →
            ∃ a, Capture.read h path status k = .ok a := by
  constructor
  · intro s hs
    obtain ⟨status, hstatus, hread⟩ := exists_capture_iff.mp ⟨s, hs⟩
    refine ⟨status, hstatus, fun kind hkind => ?_⟩
    obtain ⟨a, ha⟩ := hread _ hkind
    obtain ⟨hfits, rfl⟩ := Capture.read_timestamp_eq_ok.mp ha
    refine ⟨hfits, ?_⟩
    rw [get?_of_capture hs hstatus, if_pos hkind, ha]
    rfl
  · intro kind
    unfold capture
    cases hstatus : h.status false path with
    | error fault => simp
    | ok status =>
        simp only [Result.map_eq_error, Capture.readAll_eq_error_iff, Capture.read_eq_overflow,
          Except.ok.injEq, exists_eq_left']
        constructor
        · rintro ⟨_, hk, ⟨rfl, hfits⟩, hbefore⟩
          exact ⟨hk, hfits, hbefore⟩
        · rintro ⟨hk, hfits, hbefore⟩
          exact ⟨_, hk, ⟨rfl, hfits⟩, hbefore⟩

end Host

namespace FarTime

/-- The last nanosecond before 1970, a time that is too late, and one that
is too early. -/
def status : Status :=
  ⟨0o100644, 0, 0, ⟨-1, 999999999⟩, ⟨9223372036854776, 0⟩, ⟨-9223372036854776, 192000000⟩⟩

def host : Host :=
  ⟨.empty, fun _ => some (.stands status (.queryFails .noData)), status, ⟨fun _ _ _ => .nothing⟩⟩

def file : Path := Path.ofText "/w/f"

def snapshot : Snapshot := ⟨file, [.fileType .regular, .timestamp ⟨.access, -1⟩]⟩

theorem capture_eq : host.capture file [.timestamp .access, .fileType] = .ok snapshot := by
  cbv

theorem status_eq : host.status false file = .ok status := by
  decide

theorem not_fits : ¬ status.modify.Fits ∧ ¬ status.change.Fits := by
  constructor <;> simp only [FileTime.Fits, not_and] <;> decide

end FarTime

/-- The time before 1970 is captured, and at the other two the capture
breaks off. -/
theorem Host.capture_times_far :
    FarTime.status.access.Fits
      ∧ FarTime.snapshot.get? (.timestamp .access)
        = some (.timestamp ⟨.access, FarTime.status.access.wholeMillis⟩)
      ∧ FarTime.host.capture FarTime.file [.timestamp .modify, .timestamp .access]
        = .error (.overflow .modify)
      ∧ FarTime.host.capture FarTime.file [.timestamp .metadataChange]
        = .error (.overflow .metadataChange) := by
  have hbreaks := fun kinds => (Host.capture_times FarTime.host FarTime.file kinds).2
  obtain ⟨status, hstatus, htimes⟩ := (Host.capture_times FarTime.host FarTime.file
    [.timestamp .access, .fileType]).1 _ FarTime.capture_eq
  obtain rfl := Except.ok.inj (FarTime.status_eq.symm.trans hstatus)
  obtain ⟨hfits, htime⟩ := htimes .access (by simp)
  refine ⟨hfits, htime, ?_, ?_⟩
  · refine (hbreaks _ _).mpr ⟨_, FarTime.status_eq, by simp, FarTime.not_fits.1, ?_⟩
    simpa [Capture.read_timestamp_eq_ok, AttributeKind.rank] using hfits
  · refine (hbreaks _ _).mpr ⟨_, FarTime.status_eq, by simp, FarTime.not_fits.2, ?_⟩
    simp [AttributeKind.rank]

/-- At a time that a file may have, a capture gives neither a snapshot nor
a fault. -/
theorem Host.capture_breaks_off :
    ∃ (h : Host) (path : Path) (status : Status), h.status false path = .ok status
      ∧ status.modify.nanos.toNat < 1000000000
      ∧ (∀ s, h.capture path [.timestamp .modify] ≠ .ok s)
      ∧ ∀ fault, h.capture path [.timestamp .modify] ≠ .error (.fault fault) := by
  have hbreaks : FarTime.host.capture FarTime.file [.timestamp .modify]
      = .error (.overflow .modify) := rfl
  refine ⟨FarTime.host, FarTime.file, FarTime.status, FarTime.status_eq, by decide, ?_, ?_⟩ <;>
    simp [hbreaks]

end Conformance
