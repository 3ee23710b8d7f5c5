import Mathlib.Data.List.TakeDrop
import Conformance.Capture
import Conformance.Proofs.Acl.RoundTrip
import Conformance.Proofs.Script.FileStates
import Conformance.Proofs.Text.Blank

/-!
# Access control lists that are expected as they are shown

The text of an entry is read as a check of an entry. The check accepts the
entry that the text is of, unless the text could be of another one: an
entry of a named user without a name looks like that of the owner, a name
with a colon takes the place of the permissions, and a name of digits looks
like an id (`AclEntry.Unambiguous`). Nothing else is lost: the permissions
come back, and blanks inside a name stay (`ofText?_text_iff`).

So a list that was captured can be written down as it is shown, and a step
that expects it passes on the file that it was captured from
(`texts_expected`).
-/

namespace Conformance

/-! ## Permissions -/

namespace AclPerms

theorem ofSymbolicChars?_symbolicChars {p : AclPerms} (hp : p.bits.toNat < 8) :
    ofSymbolicChars? p.symbolicChars = some p := by
  have hall : ∀ n < 8, ofSymbolicChars? (AclPerms.mk (UInt8.ofNat n)).symbolicChars
      = some ⟨UInt8.ofNat n⟩ := by
    decide
  have hp' := hall _ hp
  rwa [UInt8.ofNat_toNat] at hp'

theorem ofSymbolicChars?_of_long {cs : List Char} (h : 3 < cs.length) :
    ofSymbolicChars? cs = none := by
  unfold ofSymbolicChars?
  split
  · exact absurd h (by simp)
  · rfl

end AclPerms

/-! ## The text of an entry -/

namespace AclEntry

/-- The name in the text of an entry, which is empty if it names nobody. -/
def shownName (e : AclEntry) : String := (e.qualifier.map (·.name)).getD ""

theorem toList_text (e : AclEntry) :
    e.text.toList
      = e.tag.word.toList ++ ':' :: (e.shownName.toList ++ ':' :: e.perms.symbolicChars) := by
  simp [text, shownName, AclPerms.symbolic]

/-- There is no blank at an end of the text of an entry, though there may be
some in the name. -/
theorem trimChars_text (e : AclEntry) : Text.trimChars e.text.toList = e.text.toList := by
  refine Text.trimChars_eq_self (fun c hc => ?_) (fun c hc => ?_)
  · rw [toList_text] at hc
    revert hc
    cases e.tag <;> simp [AclTag.word] <;> rintro rfl <;> decide
  · have hlast : c = 'x' ∨ c = '-' := by
      rw [toList_text, AclPerms.symbolicChars] at hc
      simp only [List.getLast?_append, List.getLast?_cons, List.getLast?_nil, Option.getD_some,
        Option.getD_none, Option.some_or, Option.some.injEq] at hc
      split at hc <;> simp [← hc]
    rcases hlast with rfl | rfl <;> decide

/-- The text of an entry is of no other entry: it names nobody and may not,
or its name is there, has no colon, and is no number but that of its own
id. -/
def Unambiguous (e : AclEntry) : Prop :=
  match e.qualifier with
  | none => e.tag.isQualified = false
  | some q => q.name ≠ "" ∧ ':' ∉ q.name.toList
    ∧ ∀ id, Digits.word32? q.name = some id → id = q.id

end AclEntry

/-! ## Reading the text -/

namespace AclEntryCheck

theorem split?_eq {tag qualifier : List Char} (htag : ':' ∉ tag) (hqualifier : ':' ∉ qualifier)
    (rest : List Char) :
    split? (tag ++ ':' :: (qualifier ++ ':' :: rest)) = some (tag, qualifier, rest) := by
  have hspan : ∀ {cs : List Char} (rest : List Char), ':' ∉ cs →
      (cs ++ ':' :: rest).span (· ≠ ':') = (cs, ':' :: rest) := by
    intro cs rest hcs
    have hpass : ∀ c ∈ cs, decide (c ≠ ':') = true := fun c hc =>
      decide_eq_true fun heq => hcs (heq ▸ hc)
    rw [List.span_eq_takeWhile_dropWhile, List.takeWhile_append_of_pos hpass,
      List.dropWhile_append_of_pos hpass]
    simp
  simp only [split?, hspan _ htag, hspan _ hqualifier]

theorem colon_notMem_word (tag : AclTag) : ':' ∉ tag.word.toList := by
  cases tag <;> decide

/-- The tag that a word without a name stands for: a user or group then is
the owner. -/
def unnamed : AclTag → AclTag
  | .user => .userObj
  | .group => .groupObj
  | tag => tag

theorem tag?_word_false (tag : AclTag) : tag? tag.word false = some (unnamed tag) := by
  cases tag <;> rfl

theorem tag?_word_true {tag : AclTag} (h : tag.isQualified = true) :
    tag? tag.word true = some tag := by
  cases tag with
  | user | group => rfl
  | mask | userObj | groupObj | other => cases h

theorem unnamed_eq_iff {tag : AclTag} : unnamed tag = tag ↔ tag.isQualified = false := by
  cases tag <;> decide

variable {e : AclEntry}

/-- The permissions are behind the second colon, and a colon of the name
comes before it. -/
theorem ofText?_of_colon (h : ':' ∈ e.shownName.toList) : ofText? e.text = none := by
  obtain ⟨before, after, hname, hbefore⟩ := List.eq_append_cons_of_mem h
  have hsplit := split?_eq (colon_notMem_word e.tag) hbefore
    (after ++ ':' :: e.perms.symbolicChars)
  have hlong : AclPerms.ofSymbolicChars? (after ++ ':' :: e.perms.symbolicChars) = none :=
    AclPerms.ofSymbolicChars?_of_long (by simp [AclPerms.symbolicChars])
  rw [ofText?, AclEntry.trimChars_text, AclEntry.toList_text, hname, List.append_assoc,
    List.cons_append, hsplit, Option.bind_eq_bind, Option.bind_some]
  dsimp only
  rw [hlong]
  rfl

theorem ofText?_text (hp : e.perms.bits.toNat < 8) (h : ':' ∉ e.shownName.toList) :
    ofText? e.text = (tag? e.tag.word (!e.shownName.isEmpty)).map fun tag =>
      ⟨tag, (whom e.shownName).1, (whom e.shownName).2, e.perms⟩ := by
  have hempty : e.shownName.toList.isEmpty = e.shownName.isEmpty := by
    rw [Bool.eq_iff_iff]
    simp
  rw [ofText?, AclEntry.trimChars_text, AclEntry.toList_text,
    split?_eq (colon_notMem_word e.tag) h, Option.bind_eq_bind, Option.bind_some]
  dsimp only
  rw [AclPerms.ofSymbolicChars?_symbolicChars hp, hempty, String.ofList_toList,
    String.ofList_toList]
  cases tag? e.tag.word (!e.shownName.isEmpty) <;> rfl

/-- A name agrees with itself, but a number that it looks like has to be
the id. -/
theorem qualifierAgrees_whom (tag : AclTag) (perms : AclPerms) (q : Qualifier) :
    (AclEntryCheck.mk tag (whom q.name).1 (whom q.name).2 perms).qualifierAgrees (some q) = true
      ↔ ∀ id, Digits.word32? q.name = some id → id = q.id := by
  by_cases hempty : q.name = ""
  · have hword : Digits.word32? "" = none := rfl
    simp [whom, qualifierAgrees, hempty, hword]
  · cases hword : Digits.word32? q.name with
    | none => simp [whom, qualifierAgrees, hempty, hword]
    | some id => simp [whom, qualifierAgrees, hempty, hword]

/-- Without a name the tag is that of an owner. -/
theorem tag?_shownName {names : NameService} (he : Acl.Captured names e) :
    tag? e.tag.word (!e.shownName.isEmpty)
      = some (if e.shownName = "" then unnamed e.tag else e.tag) := by
  by_cases hempty : e.shownName = ""
  · rw [if_pos hempty, hempty]
    exact tag?_word_false e.tag
  · have hqualified : e.tag.isQualified = true := by
      cases hq : e.qualifier with
      | none => simp [AclEntry.shownName, hq] at hempty
      | some q => exact (he.named q hq).1
    rw [if_neg hempty, show (!e.shownName.isEmpty) = true by simpa using hempty]
    exact tag?_word_true hqualified

/-- **Entries.** The text of a captured entry is read as a check that
accepts the entry, unless the text could be of another one. -/
theorem ofText?_text_iff {names : NameService} (he : Acl.Captured names e) :
    (∃ c, ofText? e.text = some c ∧ c.accepts e = true) ↔ e.Unambiguous := by
  by_cases hcolon : ':' ∈ e.shownName.toList
  · rw [ofText?_of_colon hcolon]
    obtain ⟨tag, qualifier, perms⟩ := e
    cases qualifier with
    | none => simp [AclEntry.shownName] at hcolon
    | some q =>
        have hno : ¬ (AclEntry.mk tag (some q) perms).Unambiguous := fun h => h.2.1 hcolon
        simp [hno]
  · rw [ofText?_text he.perms hcolon, tag?_shownName he]
    obtain ⟨tag, qualifier, perms⟩ := e
    cases qualifier with
    | none =>
        simp [accepts, qualifierAgrees, AclEntry.shownName, whom, unnamed_eq_iff,
          AclEntry.Unambiguous]
    | some q =>
        -- An entry with a qualifier is not that of an owner.
        have hother : unnamed tag ≠ tag := by
          rw [Ne, unnamed_eq_iff, (he.named q rfl).1]
          decide
        have hname : (AclEntry.mk tag (some q) perms).shownName = q.name := rfl
        rw [hname] at hcolon ⊢
        by_cases hempty : q.name = ""
        · simp [accepts, hother, AclEntry.Unambiguous, hempty]
        · simp [accepts, qualifierAgrees_whom, AclEntry.Unambiguous, hempty, hcolon]

end AclEntryCheck

/-! ## A whole list -/

theorem AttributeExpectations.kind_of_mismatch? {s : Snapshot} {c : AttributeCheck}
    {m : AttributeMismatch} (h : mismatch? s c = some m) : m.kind = c.kind := by
  unfold mismatch? at h
  split at h
  · split at h
    · cases h
    · obtain rfl := Option.some.inj h
      rfl
  · obtain rfl := Option.some.inj h
    rfl

/-- A snapshot passes the check of a list that agrees with its own. -/
theorem AttributeExpectations.mismatch?_acl {s : Snapshot} {es : List AclEntry}
    (hs : s.get? .acl = some (.acl es)) {cs : List AclEntryCheck}
    (hagree : AttributeCheck.entriesAgree cs es = true) : mismatch? s (.acl cs) = none := by
  simp [mismatch?, AttributeCheck.kind, hs, AttributeCheck.accepts, hagree]

namespace Step

/-- The texts of the entries are read as checks that they pass. -/
theorem aclChecks_texts {names : NameService} : ∀ {es : List AclEntry},
    (∀ e ∈ es, Acl.Captured names e) → (∀ e ∈ es, e.Unambiguous) →
      ∃ cs, aclChecks (es.map AclEntry.text) = .ok cs
        ∧ AttributeCheck.entriesAgree cs es = true
  | [], _, _ => ⟨[], rfl, rfl⟩
  | e :: r, hcaptured, hes => by
      obtain ⟨he, hr⟩ := List.forall_mem_cons.mp hes
      obtain ⟨he', hr'⟩ := List.forall_mem_cons.mp hcaptured
      obtain ⟨c, hc, haccepts⟩ := (AclEntryCheck.ofText?_text_iff he').mpr he
      obtain ⟨cs, hcs, hagree⟩ := aclChecks_texts hr' hr
      refine ⟨c :: cs, ?_, by simp [AttributeCheck.entriesAgree, haccepts, hagree]⟩
      rw [List.map_cons, aclChecks, hc, hcs]
      rfl

/-- The list is what a file is expected to have, so a snapshot that has it
differs in something else if it differs. -/
theorem verify_acl {entries : StateEntries} {texts : List String} {cs : List AclEntryCheck}
    {es : List AclEntry} (htexts : entries.acl = some texts) (hcs : aclChecks texts = .ok cs)
    (hagree : AttributeCheck.entriesAgree cs es = true) {expect : AttributeExpectations}
    (h : entries.expectations = .ok expect) {s : Snapshot} (hs : s.get? .acl = some (.acl es))
    {m : AttributeMismatch} (hm : expect.verify s = some m) : m.kind ≠ .acl := by
  intro hkind
  obtain ⟨c, hc, hmismatch⟩ := List.exists_of_findSome?_eq_some hm
  rw [AttributeExpectations.kind_of_mismatch? hmismatch] at hkind
  cases (mem_expectations h).mp hc with
  | acl htexts' hcs' =>
      obtain rfl := Option.some.inj (htexts.symm.trans htexts')
      obtain rfl := Except.ok.inj (hcs.symm.trans hcs')
      rw [AttributeExpectations.mismatch?_acl hs hagree] at hmismatch
      cases hmismatch
  | fileType _ | permissions _ _ | owner _ | group _ | access _ | modify _ | change _ =>
      cases hkind

/-- A step that expects a list of a file and nothing else. -/
def aclStep (path : String) (texts : List String) : Datum :=
  .map [(.text "kind", .text "file-state"), (.text "path", .text path),
    (.text "expect", .map [(.text "acl", .list (texts.map .text))])]

theorem reader_texts (texts : List String) :
    Reader.list .script Reader.text (.list (texts.map .text)) = .ok texts := by
  have heach : ∀ texts : List String, Reader.each Reader.text (texts.map .text) = .ok texts := by
    intro texts
    induction texts with
    | nil => rfl
    | cons t r ih =>
        rw [List.map_cons, Reader.each]
        exact Result.map_eq_ok.mpr ⟨r, ih, rfl⟩
  exact heach texts

/-- The entries of an expectation with a list and nothing else. -/
def aclEntries (texts : List String) : StateEntries where
  type := none
  permissions := none
  owner := none
  group := none
  access := none
  modify := none
  change := none
  acl := some texts

theorem reader_acl (texts : List String) :
    StateEntries.reader (.map [(.text "acl", .list (texts.map .text))])
      = .ok (aclEntries texts) := by
  have htexts := reader_texts texts
  simp [StateEntries.reader, Reader.entries, Datum.untag, Reader.scan, Reader.textAs,
    Reader.Field.of, Reader.optional, Reader.Entries.optional, htexts, aclEntries, Except.map,
    bind, Except.bind]
  rfl

theorem expectations_acl {texts : List String} {cs : List AclEntryCheck}
    (hcs : aclChecks texts = .ok cs) : (aclEntries texts).expectations = .ok ⟨[.acl cs]⟩ := by
  simp [StateEntries.expectations, aclEntries, permissionCheck, aclCheck, hcs, identityCheck,
    timestampCheck, Except.map, bind, Except.bind, AttributeExpectations.of]

theorem ofDatum_aclStep {path : String} (hpath : Path.isContained (Path.ofText path) = true)
    {texts : List String} {cs : List AclEntryCheck} (hcs : aclChecks texts = .ok cs)
    (capability : String) (index : Nat) :
    ofDatum capability index (aclStep path texts)
      = .ok ⟨numbered index, index, .fileState (Path.ofText path) ⟨[.acl cs]⟩⟩ := by
  -- Taking the kind out moves the last entry into its place.
  have hread : fileStateReader (.map [
      (.text "expect", .map [(.text "acl", .list (texts.map .text))]),
      (.text "path", .text path)]) = .ok (Path.ofText path, aclEntries texts) := by
    simp [fileStateReader, Reader.entries, Datum.untag, Reader.scan, Reader.textAs,
      Reader.Field.of, reader_acl, Path.reader, Except.map, Reader.Entries.required,
      List.lookup, bind, Except.bind]
    rfl
  have hexpect := expectations_acl hcs
  simp [ofDatum, aclStep, Datum.remove, Datum.same, ofDatum.named, read, List.findIdx?,
    List.findIdx?.go, fileState, hread, hexpect, Path.contained, hpath, StepFault.ofReading,
    bind, Except.bind, pure, Except.pure]

end Step

/-- A capture of the list alone holds the list that is read. -/
theorem Host.capture_acl {h : Host} {path : Path} {status : Status} {es : List AclEntry}
    (hstatus : h.status false path = .ok status)
    (hread : Acl.read h.names (h.aclReading path) status.mode = .ok es) :
    h.capture path [.acl] = .ok (.of path [.acl es]) := by
  have hkinds : AttributeKind.inOrder [.acl] = [.acl] := by decide
  simp [Host.capture, hstatus, hkinds, Capture.readAll, Capture.read, Capture.list, hread,
    Except.map, Except.mapError]

/-- **As it is shown.** Of a list that was captured, the text of an entry
is read as a check that the entry passes just if it could be of no other.
If that is so of every entry, and the texts are what is expected of the
list, then a snapshot with the list is never wrong in it, whatever else is
expected; and a step that expects the list alone passes on every file that
has it. -/
theorem AclEntry.texts_expected {names : NameService} {reading : Acl.Reading} {mode : UInt32}
    {es : List AclEntry} (h : Acl.read names reading mode = .ok es) :
    (∀ e ∈ es, (∃ c, AclEntryCheck.ofText? e.text = some c ∧ c.accepts e = true)
        ↔ e.Unambiguous)
      ∧ ((∀ e ∈ es, e.Unambiguous) →
        (∀ entries : Step.StateEntries, entries.acl = some (es.map AclEntry.text) →
          ∀ expect, entries.expectations = .ok expect →
            ∀ s : Snapshot, s.get? .acl = some (.acl es) →
              ∀ m, expect.verify s = some m → m.kind ≠ .acl)
        ∧ ∀ capability index path, Path.isContained (Path.ofText path) = true →
          ∃ expect, Step.ofDatum capability index (Step.aclStep path (es.map AclEntry.text))
              = .ok ⟨Step.numbered index, index, .fileState (Path.ofText path) expect⟩
            ∧ ∀ (host : Host) file status, host.status false file = .ok status →
              Acl.read host.names (host.aclReading file) status.mode = .ok es →
                ∃ s, host.capture file expect.kinds = .ok s ∧ expect.verify s = none) := by
  have hcaptured := Acl.captured_of_read h
  refine ⟨fun e he => AclEntryCheck.ofText?_text_iff (hcaptured e he), fun hes => ?_⟩
  obtain ⟨cs, hcs, hagree⟩ := Step.aclChecks_texts hcaptured hes
  constructor
  · intro entries htexts expect hexpect s hs m
    exact Step.verify_acl htexts hcs hagree hexpect hs
  · intro capability index path hpath
    refine ⟨⟨[.acl cs]⟩, Step.ofDatum_aclStep hpath hcs capability index, ?_⟩
    intro host file status hstatus hread
    refine ⟨_, Host.capture_acl hstatus hread, ?_⟩
    have hs : (Snapshot.of file [.acl es]).get? .acl = some (.acl es) := rfl
    simp [AttributeExpectations.verify, AttributeExpectations.mismatch?_acl hs hagree]

namespace ShownList

/-- A user whose name has blanks in it, and a group that is called by its
number. -/
def names : NameService where
  lookup kind id _ :=
    if kind = .user ∧ id = 1000 then .found (Utf8.encode " zoë b ")
    else if kind = .group ∧ id = 50 then .found (Utf8.encode "+50")
    else .nothing

def reading : Acl.Reading := .done [2, 0, 0, 0,
  1, 0, 6, 0, 0xFF, 0xFF, 0xFF, 0xFF, 2, 0, 5, 0, 0xE8, 3, 0, 0, 8, 0, 4, 0, 50, 0, 0, 0]

def entries : List AclEntry :=
  [⟨.userObj, none, ⟨6⟩⟩, ⟨.user, some ⟨1000, " zoë b "⟩, ⟨5⟩⟩, ⟨.group, some ⟨50, "+50"⟩, ⟨4⟩⟩]

theorem read_eq : Acl.read names reading 0 = .ok entries := by
  cbv

theorem unambiguous : ∀ e ∈ entries, e.Unambiguous := by
  have hname : Digits.word32? " zoë b " = none := by decide
  have hnumber : Digits.word32? "+50" = some 50 := by decide
  simp [entries, AclEntry.Unambiguous, AclTag.isQualified, hname, hnumber]

def status : Status := ⟨0o100644, 0, 0, ⟨0, 0⟩, ⟨0, 0⟩, ⟨0, 0⟩⟩

/-- A host on which every path has the list. -/
def host : Host := ⟨.empty, fun _ => some (.stands status reading), status, names⟩

end ShownList

/-- Names with blanks and names that are numbers can be written down as
they are shown. -/
theorem AclEntry.texts_expected_shownList :
    Acl.read ShownList.names ShownList.reading 0 = .ok ShownList.entries
      ∧ ∃ expect s, Step.ofDatum "file-monitor" 0 (Step.aclStep "f"
            ["user::rw-", "user: zoë b :r-x", "group:+50:r--"])
          = .ok ⟨"#1", 0, .fileState (Path.ofText "f") expect⟩
        ∧ ShownList.host.capture (Path.ofText "/w/f") expect.kinds = .ok s
        ∧ expect.verify s = none := by
  obtain ⟨-, hwritten⟩ := AclEntry.texts_expected ShownList.read_eq
  obtain ⟨-, hstep⟩ := hwritten ShownList.unambiguous
  obtain ⟨expect, hread, hcapture⟩ := hstep "file-monitor" 0 "f" (by decide)
  obtain ⟨s, hs, hverify⟩ := hcapture ShownList.host (Path.ofText "/w/f") ShownList.status
    (by decide) ShownList.read_eq
  have htexts : ShownList.entries.map AclEntry.text
      = ["user::rw-", "user: zoë b :r-x", "group:+50:r--"] := by decide
  rw [htexts] at hread
  exact ⟨ShownList.read_eq, expect, s, hread, hs, hverify⟩

/-- A user that is called like the number of another one. -/
example : (AclEntryCheck.ofText? "user:1001:r--").map
    (·.accepts ⟨.user, some ⟨1000, "1001"⟩, ⟨4⟩⟩) = some false := by
  decide

end Conformance
