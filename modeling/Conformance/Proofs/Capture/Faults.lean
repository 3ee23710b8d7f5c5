import Conformance.Proofs.Acl.Reading
import Conformance.Proofs.Capture.Times

/-!
# Why a capture fails

What a capture meets on its way is the status of the file, what the name
service says of an id in the end (`NameService.Settles`), and how the
reading of the access control list ends (`Acl.Reading.FailsWith`,
`Acl.Reading.Holds`). From these follows why a kind cannot be read, and
with which fault (`Capture.Unreadable`); only a time that does not fit
breaks the capture off without one. A capture fails with the fault of
its status, or else ends as the first kind does that cannot be read
(`Host.CaptureFails`); so it says that the file is not there only if that
is what the status or the list has said (`Host.capture_faults`).
-/

namespace Conformance

/-! ## Reading a kind -/

namespace Capture

/-- Why there is no name for an id, and the fault of it. -/
inductive Nameless (names : NameService) (path : Path) (kind : IdentityKind) (id : Nat) :
    CaptureFault → Prop
  | unknown (h : names.Unknown kind id) : Nameless names path kind id (.unresolved path kind id)
  | breaks {e : Errno} (h : names.Breaks kind id e) :
    Nameless names path kind id (.io path (.system e))

/-- Why a kind cannot be read of a file with some status, and how the
capture ends then. Types and permissions always can. -/
inductive Unreadable (h : Host) (path : Path) (status : Status) :
    AttributeKind → CaptureStop → Prop
  | owner {kind : IdentityKind} {fault : CaptureFault}
    (hname : Nameless h.names path kind (status.ownerId kind) fault) :
    Unreadable h path status (.identity kind) (.fault fault)
  | time {kind : TimestampKind} (hfar : ¬ (status.time kind).Fits) :
    Unreadable h path status (.timestamp kind) (.overflow kind)
  | gone (hread : (h.aclReading path).FailsWith .noEntry) :
    Unreadable h path status .acl (.fault (.notFound path))
  | list {e : Errno} (hread : (h.aclReading path).FailsWith e) (hpresent : e ∉ Acl.absentErrors)
    (hthere : e ≠ .noEntry) : Unreadable h path status .acl (.fault (.io path (.system e)))
  | malformed {raw : Bytes} {fault : Acl.StoredFault} (hraw : (h.aclReading path).Holds raw)
    (hdecode : Acl.decode raw = .error fault) :
    Unreadable h path status .acl (.fault (.io path (.badAcl fault.reason)))
  | entry {raw : Bytes} {before after : List Acl.StoredEntry} {e : Acl.StoredEntry} {id : Nat}
    {fault : CaptureFault} (hraw : (h.aclReading path).Holds raw)
    (hdecode : Acl.decode raw = .ok (before ++ e :: after))
    (hbefore : ∀ b ∈ before, ∀ id, b.id = some id → h.names.Knows (Acl.identityKind b.tag) id)
    (hid : e.id = some id) (hname : Nameless h.names path (Acl.identityKind e.tag) id fault) :
    Unreadable h path status .acl (.fault fault)

variable {h : Host} {path : Path} {status : Status}

theorem identity_eq_error_iff {kind : IdentityKind} {fault : CaptureFault} :
    identity h.names path status kind = .error fault
      ↔ Nameless h.names path kind (status.ownerId kind) fault := by
  unfold identity
  constructor
  · intro hfault
    split at hfault
    · rename_i e he
      cases hfault
      exact .breaks (NameService.resolve_eq_error_iff.mp he)
    · rename_i hnone
      cases hfault
      exact .unknown (NameService.resolve_eq_none_iff.mp hnone)
    · cases hfault
  · rintro (hunknown | hbreaks)
    · rw [NameService.resolve_eq_none_iff.mpr hunknown]
    · rw [NameService.resolve_eq_error_iff.mpr hbreaks]

/-- Only one error says that the file is not there. -/
theorem ofOs_of_ne {fault : OsFault} (h : fault ≠ .system .noEntry) :
    CaptureFault.ofOs path fault = .io path fault := by
  simp [CaptureFault.ofOs, OsFault.isNotFound, h]

/-- What a fault of the list is to the capture. -/
def ofRead (path : Path) : Acl.ReadFault → CaptureFault
  | .os fault => .ofOs path fault
  | .unresolved kind id => .unresolved path kind id

theorem list_eq_error_iff {fault : CaptureFault} : list h path status = .error fault
    ↔ ∃ f, Acl.read h.names (h.aclReading path) status.mode = .error f
      ∧ ofRead path f = fault := by
  unfold list
  cases Acl.read h.names (h.aclReading path) status.mode with
  | ok entries => simp
  | error f => cases f <;> simp [ofRead]

/-- An error by which a look-up fails never says that the file is not
there, since the service would have meant that it does not know the id. -/
theorem ofRead_breaks {names : NameService} {kind : IdentityKind} {id : Nat} {e : Errno}
    (h : names.Breaks kind id e) : ofRead path (.os (.system e)) = .io path (.system e) := by
  have hne : e ≠ .noEntry := fun heq => h.2 (by simp [heq, NameService.unknownErrors])
  exact ofOs_of_ne (by simpa using hne)

theorem nameless_iff {names : NameService} {e : Acl.StoredEntry} {id : Nat} (hid : e.id = some id)
    {fault : CaptureFault} : Nameless names path (Acl.identityKind e.tag) id fault
      ↔ ∃ f, Acl.resolveEntry names e = .error f ∧ ofRead path f = fault := by
  unfold Acl.resolveEntry
  rw [hid]
  constructor
  · rintro (hunknown | hbreaks)
    · refine ⟨.unresolved (Acl.identityKind e.tag) id, ?_, rfl⟩
      simp only [NameService.resolve_eq_none_iff.mpr hunknown]
    · refine ⟨.os (.system _), ?_, ofRead_breaks hbreaks⟩
      simp only [NameService.resolve_eq_error_iff.mpr hbreaks]
  · rintro ⟨f, hf, rfl⟩
    dsimp only at hf
    split at hf
    · rename_i errno hname
      cases hf
      have hbreaks := NameService.resolve_eq_error_iff.mp hname
      have hio : ofRead path (.os (.system errno)) = .io path (.system errno) :=
        ofRead_breaks hbreaks
      exact hio ▸ .breaks hbreaks
    · rename_i hname
      cases hf
      exact .unknown (NameService.resolve_eq_none_iff.mp hname)
    · cases hf

/-- The list cannot be read because of what reading the attribute meets,
of the form of the attribute, or of the first entry that cannot be
shown. -/
theorem list_eq_error (hcomplete : (h.aclReading path).Complete) {fault : CaptureFault}
    (hfault : list h path status = .error fault) :
    Unreadable h path status .acl (.fault fault) := by
  obtain ⟨f, hf, rfl⟩ := list_eq_error_iff.mp hfault
  unfold Acl.read at hf
  split at hf
  · rename_i e hstored
    cases hf
    obtain ⟨hread, hpresent⟩ := (Acl.stored_eq_error_iff hcomplete).mp hstored
    by_cases hgone : e = .noEntry
    · subst hgone
      exact .gone hread
    · have hio : ofRead path (.os (.system e)) = .io path (.system e) :=
        ofOs_of_ne (by simpa using hgone)
      exact hio ▸ .list hread hpresent hgone
  · cases hf
  · rename_i raw hstored
    have hraw := Acl.stored_eq_some_iff.mp hstored
    split at hf
    · rename_i f' hdecode
      cases hf
      exact .malformed hraw hdecode
    · rename_i stored hdecode
      rw [Acl.resolve_eq_mapM, Result.mapM_eq_error] at hf
      obtain ⟨before, e, after, rfl, he, hbefore⟩ := hf
      cases hid : e.id with
      | none => simp [Acl.resolveEntry, hid] at he
      | some id =>
          exact .entry hraw hdecode (fun b hb => Acl.exists_resolveEntry_iff.mp (hbefore b hb)) hid
            ((nameless_iff hid).mpr ⟨f, he, rfl⟩)

theorem list_of_unreadable (hcomplete : (h.aclReading path).Complete) {fault : CaptureFault}
    (hfault : Unreadable h path status .acl (.fault fault)) :
    list h path status = .error fault := by
  rw [list_eq_error_iff]
  unfold Acl.read
  cases hfault with
  | gone hread =>
      have hstored := (Acl.stored_eq_error_iff hcomplete).mpr ⟨hread, by decide⟩
      exact ⟨.os (.system .noEntry), by rw [hstored], rfl⟩
  | @list e hread hpresent hthere =>
      have hstored := (Acl.stored_eq_error_iff hcomplete).mpr ⟨hread, hpresent⟩
      exact ⟨.os (.system e), by rw [hstored], ofOs_of_ne (by simpa using hthere)⟩
  | @malformed raw fault hraw hdecode =>
      have hstored := Acl.stored_eq_some_iff.mpr hraw
      exact ⟨.os (.badAcl fault.reason), by simp only [hstored, hdecode], rfl⟩
  | @entry raw before after e id fault hraw hdecode hbefore hid hname =>
      have hstored := Acl.stored_eq_some_iff.mpr hraw
      obtain ⟨f, hf, rfl⟩ := (nameless_iff hid).mp hname
      refine ⟨f, ?_, rfl⟩
      simp only [hstored, hdecode]
      rw [Acl.resolve_eq_mapM, Result.mapM_eq_error]
      exact ⟨before, e, after, rfl, hf,
        fun b hb => Acl.exists_resolveEntry_iff.mpr (hbefore b hb)⟩

/-- **Kinds.** -/
theorem read_eq_error_iff (hcomplete : (h.aclReading path).Complete) {k : AttributeKind}
    {stop : CaptureStop} :
    read h path status k = .error stop ↔ Unreadable h path status k stop := by
  cases k with
  | fileType | permissions => exact iff_of_false nofun nofun
  | identity kind =>
      rw [read, Result.mapError_eq_error]
      simp only [Result.map_eq_error, identity_eq_error_iff]
      constructor
      · rintro ⟨fault, hname, rfl⟩
        exact .owner hname
      · rintro ⟨hname⟩
        exact ⟨_, hname, rfl⟩
  | timestamp kind =>
      constructor
      · intro hstop
        rw [read_timestamp] at hstop
        split at hstop
        · cases hstop
        · rename_i hmillis
          cases hstop
          exact .time (FileTime.millis?_eq_none.mp hmillis)
      · intro hstop
        cases hstop with
        | time hfar => exact read_eq_overflow.mpr ⟨rfl, hfar⟩
  | acl =>
      rw [read, Result.mapError_eq_error]
      simp only [Result.map_eq_error]
      constructor
      · rintro ⟨fault, hlist, rfl⟩
        exact list_eq_error hcomplete hlist
      · intro hstop
        obtain ⟨fault, rfl⟩ : ∃ fault, stop = .fault fault := by cases hstop <;> exact ⟨_, rfl⟩
        exact ⟨fault, list_of_unreadable hcomplete hstop, rfl⟩

end Capture

/-! ## Captures -/

namespace Host

/-- Why kinds cannot be captured of a path, and how the capture ends:
there is no status, or there are kinds that cannot be read, of which the
first counts. -/
inductive CaptureFails (h : Host) (path : Path) (kinds : List AttributeKind) :
    CaptureStop → Prop
  | absent (hstatus : h.status false path = .error (.system .noEntry)) :
    CaptureFails h path kinds (.fault (.notFound path))
  | unstated {fault : OsFault} (hstatus : h.status false path = .error fault)
    (hthere : fault ≠ .system .noEntry) : CaptureFails h path kinds (.fault (.io path fault))
  | unreadable {status : Status} {k : AttributeKind} {stop : CaptureStop}
    (hstatus : h.status false path = .ok status) (hk : k ∈ kinds)
    (hfault : Capture.Unreadable h path status k stop)
    (hfirst : ∀ k' ∈ kinds, k'.rank < k.rank → ∀ f, ¬ Capture.Unreadable h path status k' f) :
    CaptureFails h path kinds stop

variable {h : Host} {path : Path} {kinds : List AttributeKind}

theorem capture_eq_error_iff (hcomplete : (h.aclReading path).Complete) {stop : CaptureStop} :
    h.capture path kinds = .error stop ↔ h.CaptureFails path kinds stop := by
  unfold capture
  cases hstatus : h.status false path with
  | error f =>
      constructor
      · rintro ⟨⟩
        by_cases hgone : f = .system .noEntry
        · subst hgone
          exact .absent hstatus
        · exact Capture.ofOs_of_ne hgone ▸ .unstated hstatus hgone
      · intro hfails
        cases hfails with
        | absent hstatus' =>
            obtain rfl := Except.error.inj (hstatus.symm.trans hstatus')
            rfl
        | unstated hstatus' hthere =>
            obtain rfl := Except.error.inj (hstatus.symm.trans hstatus')
            exact congrArg (Except.error ∘ CaptureStop.fault) (Capture.ofOs_of_ne hthere)
        | unreadable hstatus' => cases hstatus.symm.trans hstatus'
  | ok status =>
      simp only [Result.map_eq_error, Capture.readAll_eq_error_iff,
        Capture.read_eq_error_iff hcomplete, Result.exists_ok_iff, ne_eq]
      constructor
      · rintro ⟨k, hk, hfault, hfirst⟩
        exact .unreadable hstatus hk hfault hfirst
      · intro hfails
        cases hfails with
        | absent hstatus' => cases hstatus.symm.trans hstatus'
        | unstated hstatus' => cases hstatus.symm.trans hstatus'
        | @unreadable status' k stop hstatus' hk hfault hfirst =>
            obtain rfl := Except.ok.inj (hstatus.symm.trans hstatus')
            exact ⟨k, hk, hfault, hfirst⟩

/-- **Why a capture fails.** It fails just if the status does or some kind
that was asked for cannot be read, with the fault of the status or else
as the first such kind does, which is a fault but for a time that does
not fit. It says that the path is not there only if the status or the
reading of the list said so. -/
theorem capture_faults (hcomplete : (h.aclReading path).Complete) (kinds : List AttributeKind) :
    (∀ stop, h.capture path kinds = .error stop ↔ h.CaptureFails path kinds stop)
      ∧ ((∃ stop, h.capture path kinds = .error stop)
        ↔ (∃ f, h.status false path = .error f)
          ∨ ∃ status, h.status false path = .ok status
            ∧ ∃ k ∈ kinds, ∃ stop, Capture.Unreadable h path status k stop)
      ∧ ∀ p, h.capture path kinds = .error (.fault (.notFound p)) →
        p = path ∧ (h.status false path = .error (.system .noEntry)
          ∨ .acl ∈ kinds ∧ (h.aclReading path).FailsWith .noEntry) := by
  refine ⟨fun stop => capture_eq_error_iff hcomplete, ?_, fun p hp => ?_⟩
  · constructor
    · rintro ⟨stop, hstop⟩
      cases (capture_eq_error_iff hcomplete).mp hstop with
      | absent hstatus => exact .inl ⟨_, hstatus⟩
      | unstated hstatus => exact .inl ⟨_, hstatus⟩
      | unreadable hstatus hk hread => exact .inr ⟨_, hstatus, _, hk, _, hread⟩
    · intro hwhy
      cases hcapture : h.capture path kinds with
      | error stop => exact ⟨stop, rfl⟩
      | ok s =>
          obtain ⟨status, hstatus, hread⟩ := exists_capture_iff.mp ⟨s, hcapture⟩
          rcases hwhy with ⟨f, hf⟩ | ⟨status', hstatus', k, hk, stop, hstop⟩
          · cases hstatus.symm.trans hf
          · obtain rfl := Except.ok.inj (hstatus.symm.trans hstatus')
            exact absurd ((Capture.read_eq_error_iff hcomplete).mpr hstop)
              (Result.exists_ok_iff.mp (hread k hk) stop)
  · cases (capture_eq_error_iff hcomplete).mp hp with
    | absent hstatus => exact ⟨rfl, .inl hstatus⟩
    | unreadable hstatus hk hread =>
        cases hread with
        | owner hname => cases hname
        | gone hgone => exact ⟨rfl, .inr ⟨hk, hgone⟩⟩
        | entry _ _ _ _ hname => cases hname

end Host

namespace Vanished

/-- A service that needs room to say that it knows nobody. -/
def names : NameService where
  lookup _ _ length := if length < 4096 then .failed .range else .failed .noProcess

/-- The file is gone when the list that has grown is read once more. -/
def reading : Acl.Reading := .grew (.queryFails .noEntry)

def status : Status := ⟨0o100640, 1000, 50, ⟨0, 0⟩, ⟨0, 0⟩, ⟨0, 0⟩⟩

def host : Host := ⟨.empty, fun _ => some (.stands status reading), status, names⟩

def file : Path := Path.ofText "/w/f"

theorem unknown (kind : IdentityKind) (id : Nat) : names.Unknown kind id :=
  .inr ⟨.noProcess, by decide,
    .longer rfl (by decide) (.longer rfl (by decide) (.here fun h => by cases h))⟩

theorem group : Capture.Unreadable host file status (.identity .group)
    (.fault (.unresolved file .group 50)) :=
  .owner (.unknown (unknown .group 50))

theorem list : Capture.Unreadable host file status .acl (.fault (.notFound file)) :=
  .gone (.grew .query)

end Vanished

/-- A group without a name comes before a file that is gone. -/
theorem Host.capture_faults_vanished :
    (Vanished.host.aclReading Vanished.file).Complete
      ∧ Vanished.host.capture Vanished.file [.acl, .identity .group]
          = .error (.fault (.unresolved Vanished.file .group 50))
      ∧ Vanished.host.capture Vanished.file [.acl, .fileType]
          = .error (.fault (.notFound Vanished.file)) := by
  have hcomplete : (Vanished.host.aclReading Vanished.file).Complete := trivial
  have hstatus : Vanished.host.status false Vanished.file = .ok Vanished.status := by decide
  refine ⟨hcomplete, ?_, ?_⟩
  · refine ((Host.capture_faults hcomplete _).1 _).mpr
      (.unreadable hstatus (by simp) Vanished.group fun k hk hlt => ?_)
    simp only [List.mem_cons, List.not_mem_nil, or_false] at hk
    rcases hk with rfl | rfl <;> simp [AttributeKind.rank] at hlt
  · refine ((Host.capture_faults hcomplete _).1 _).mpr
      (.unreadable hstatus (by simp) Vanished.list fun k hk hlt => ?_)
    simp only [List.mem_cons, List.not_mem_nil, or_false] at hk
    rcases hk with rfl | rfl
    · simp at hlt
    · intro fault hfault
      cases hfault

end Conformance
