import Conformance.Proofs.FileSystem.Clearing
import Conformance.Proofs.Workspace.Straight

/-!
# The directories on the way

Making a directory with those above it only ever puts directories where
nothing was. For a path on the way along steps without links, all of them
are on that way (`OnWay.makeDirectories`).
-/

namespace Conformance

open FileSystem

namespace FileSystem

/-- Directories were put where nothing was, each on the way to a location,
and nothing else changed. -/
structure Paves (l : Location) (fs fs' : FileSystem) : Prop where
  start : fs'.start = fs.start
  node : ∀ k, fs'.get? k = fs.get? k
    ∨ (fs.get? k = none ∧ k <+: l ∧ ∃ mode, fs'.get? k = some (.directory mode))

variable {l k : Location} {fs fs' fs'' : FileSystem}

theorem Paves.refl (l : Location) (fs : FileSystem) : Paves l fs fs := ⟨rfl, fun _ => .inl rfl⟩

theorem Paves.trans (h : Paves l fs fs') (h' : Paves l fs' fs'') : Paves l fs fs'' := by
  refine ⟨h'.start.trans h.start, fun k => ?_⟩
  rcases h'.node k with heq' | ⟨hnone', hk, hdir'⟩
  · rw [heq']
    exact h.node k
  · rcases h.node k with heq | ⟨-, -, mode, hdir⟩
    · exact .inr ⟨heq ▸ hnone', hk, hdir'⟩
    · rw [hdir] at hnone'
      cases hnone'

theorem paves_add (hfree : fs.get? k = none) (hk : k <+: l) (mode : Permissions) :
    Paves l fs (fs.add k (.directory mode)) := by
  refine ⟨rfl, fun k' => ?_⟩
  rw [get?_add]
  by_cases heq : k' = k
  · exact .inr ⟨heq ▸ hfree, heq ▸ hk, mode, if_pos heq⟩
  · exact .inl (if_neg heq)

theorem Paves.grows (h : Paves l fs fs') : Grows fs fs' := by
  refine ⟨h.start, fun {k n} hn => ⟨n, ?_, .inl rfl⟩⟩
  rcases h.node k with heq | ⟨hnone, -⟩
  · rw [heq, hn]
  · rw [hn] at hnone
    cases hnone

/-- Where the location itself was there, nothing was missing on the way. -/
theorem Paves.grows_back (h : Paves l fs fs') (htree : fs.IsTree)
    (hthere : (fs.get? l).isSome = true) : Grows fs' fs := by
  refine ⟨h.start.symm, fun {k n} hn => ⟨n, ?_, .inl rfl⟩⟩
  rcases h.node k with heq | ⟨hnone, ⟨rest, rfl⟩, -⟩
  · rw [← heq, hn]
  · exfalso
    cases rest with
    | nil =>
        rw [List.append_nil, hnone] at hthere
        cases hthere
    | cons name rest =>
        obtain ⟨mode, hdir⟩ := directory_above htree hthere
        rw [hnone] at hdir
        cases hdir

/-- No link is new. -/
theorem Paves.unlinked (h : Paves l fs fs') {follow : Bool} {loc : Location} {steps : List Bytes}
    (hclear : Unlinked fs follow loc steps) : Unlinked fs' follow loc steps := by
  refine hclear.mono fun k target hlink => ?_
  rcases h.node k with heq | ⟨-, -, mode, hdir⟩
  · rw [← heq, hlink]
  · rw [hdir] at hlink
    cases hlink

end FileSystem

theorem Host.directory_of_isDirectory {h : Host} (htrue : h.Truthful) {q : Path}
    (hdir : h.isDirectory q = true) :
    ∃ k mode, h.files.find true q = .ok (k, .directory mode) := by
  unfold Host.isDirectory at hdir
  cases hs : h.status true q with
  | error fault => simp [hs] at hdir
  | ok s =>
      obtain ⟨k, node, hfind, hmode⟩ := Host.find_of_status htrue hs
      obtain ⟨mode, rfl⟩ := Status.directory_of_isDirectory hmode (by simpa [hs] using hdir)
      exact ⟨k, mode, hfind⟩

/-- What making the directories of a path has done: it has paved the way
to a location, and if nothing has stopped it, the path leads to a
directory. -/
structure Paved (l : Location) (fs : FileSystem) (q : Path) (a : Attempt) : Prop where
  paves : Paves l fs a.files
  there : a.fault = none → q ≠ [] →
    ∃ k mode, a.files.find true q = .ok (k, .directory mode)

section

variable {fs fs' : FileSystem} {h : Host} {ws : Workspace} {q : Path} {along rest : List Bytes}
  {follow : Bool}

theorem OnWay.mkdir (hq : OnWay ws along q rest)
    (hbase : fs.canonicalize ws.root = .ok ws.location) (hdots : ∀ s ∈ along, s ≠ Path.dotDot)
    (hclear : Unlinked fs follow ws.location along) (hmk : fs.mkdir q = .ok fs') :
    Paved (ws.location ++ Path.namesOf along) fs q ⟨fs', none⟩ := by
  obtain ⟨place, mode, hplace, hnamed, hshort, hfree, -, rfl⟩ := mkdir_ok hmk
  have hon := hq.free_place hbase hdots hclear hplace hnamed hfree
  have hnode : (fs.add place.location (.directory mode)).get? place.location
      = some (.directory mode) := by
    rw [get?_add, if_pos rfl]
  have hleads : (fs.add place.location (.directory mode)).LeadsTo true q place.location :=
    leadsTo_place hplace hnamed hshort (grows_add hfree _) hnode (by simp) fun _ => rfl
  exact ⟨paves_add hfree hon mode, fun _ _ =>
    ⟨place.location, mode, find_eq_ok.mpr ⟨(locatePlace_ok hplace).1, hleads, hnode⟩⟩⟩

/-- What making directories comes to where the last one is made in files
on the way to which the others were. -/
theorem OnWay.mkdir_paved (htrue : h.Truthful) (hq : OnWay ws along q rest)
    (hbase : h.files.canonicalize ws.root = .ok ws.location)
    (hdots : ∀ s ∈ along, s ≠ Path.dotDot) (hclear : Unlinked h.files follow ws.location along)
    {files : FileSystem} (hpaves : Paves (ws.location ++ Path.namesOf along) h.files files) :
    Paved (ws.location ++ Path.namesOf along) h.files q
      (match files.mkdir q with
      | .ok fs' => ⟨fs', none⟩
      | .error fault =>
        if ({ h with files } : Host).isDirectory q then ⟨files, none⟩
        else ⟨files, some fault⟩) := by
  cases hmk : files.mkdir q with
  | ok fs' =>
      have hmade := hq.mkdir (canonicalize_mono hpaves.grows hbase) hdots
        (hpaves.unlinked hclear) hmk
      exact ⟨hpaves.trans hmade.paves, hmade.there⟩
  | error fault =>
      dsimp only
      split
      · rename_i hdir
        exact ⟨hpaves, fun _ _ => Host.directory_of_isDirectory (h := { h with files }) htrue hdir⟩
      · exact ⟨hpaves, fun hnone => by cases hnone⟩

/-- **The step.** Making a path's directories, if that is known of its
parent. -/
theorem OnWay.makeDirectories_step (htrue : h.Truthful) (hq : OnWay ws along q rest)
    (hbase : h.files.canonicalize ws.root = .ok ws.location)
    (hdots : ∀ s ∈ along, s ≠ Path.dotDot) (hclear : Unlinked h.files follow ws.location along)
    (fuel : Nat)
    (ih : ∀ up fuel', Path.parent q = some up → fuel = fuel' + 1 →
      Paves (ws.location ++ Path.namesOf along) h.files (h.makeDirectories fuel' up).files) :
    Paved (ws.location ++ Path.namesOf along) h.files q (h.makeDirectories fuel q) := by
  have hstopped : ∀ fault, Paved (ws.location ++ Path.namesOf along) h.files q
      ⟨h.files, some fault⟩ := fun fault => ⟨.refl _ _, fun hnone => by cases hnone⟩
  have hmake := hq.mkdir_paved htrue hbase hdots hclear (.refl _ h.files)
  unfold Host.makeDirectories
  split
  · rename_i hnil
    exact ⟨.refl _ _, fun _ hne => absurd hnil hne⟩
  · cases hmk : h.files.mkdir q with
    | ok fs' => simpa [hmk] using hmake
    | error fault =>
        dsimp only
        split
        · simpa [hmk] using hmake
        · split
          · exact hstopped _
          · exact hstopped _
          · rename_i up fuel' hup
            have hpaves := ih up fuel' hup rfl
            generalize h.makeDirectories fuel' up = a at hpaves ⊢
            obtain ⟨files, fault'⟩ := a
            cases fault' with
            | some fault' => exact ⟨hpaves, fun hnone => by cases hnone⟩
            | none => exact hq.mkdir_paved htrue hbase hdots hclear hpaves

/-- **Paving.** The directories made for a path on the way are on the way,
and if nothing stops it the path leads to one. -/
theorem OnWay.makeDirectories (htrue : h.Truthful)
    (hbase : h.files.canonicalize ws.root = .ok ws.location)
    (hdots : ∀ s ∈ along, s ≠ Path.dotDot) (hclear : Unlinked h.files follow ws.location along)
    (fuel : Nat) (hq : OnWay ws along q rest) :
    Paved (ws.location ++ Path.namesOf along) h.files q (h.makeDirectories fuel q) := by
  induction fuel generalizing q rest with
  | zero =>
      exact hq.makeDirectories_step htrue hbase hdots hclear 0 fun _ _ _ hfuel => by cases hfuel
  | succ fuel ih =>
      refine hq.makeDirectories_step htrue hbase hdots hclear _ fun up fuel' hup hfuel => ?_
      obtain rfl : fuel = fuel' := by omega
      rcases Path.below_of_parent hup with rfl | ⟨dots, name, tail, hb⟩
      · unfold Host.makeDirectories
        exact .refl _ _
      · exact (ih (hq.up hb)).paves

end

namespace Workspace

variable {h : Host} {ws : Workspace} {f : Path}

/-- The directories above a path that has a name are those above the spot
where its names lead. -/
theorem ensureParent_paves (htrue : h.Truthful)
    (hbase : h.files.canonicalize ws.root = .ok ws.location) (hf : Path.isContained f = true)
    (hs : ws.Straight h.files f) (hcomp : ∃ s ∈ Path.steps f, Path.component? s ≠ none) :
    ∃ dir name, ws.spot f = dir ++ [name]
      ∧ Paves dir h.files (ensureParent h (ws.resolve f)).files := by
  obtain ⟨-, -, hdots⟩ := Path.isContained_spec hf
  have hsteps := steps_resolve hbase hf
  obtain ⟨s, hmem, hs'⟩ := hcomp
  obtain ⟨up, dots, name, tail, hparent, hb⟩ := Path.below_parent (p := ws.resolve f)
    ⟨s, by rw [hsteps]; exact List.mem_append_right _ hmem, hs'⟩
  obtain ⟨c, hup, hc⟩ := hb.split_rest hsteps ⟨s, hmem, hs'⟩
  have hway : OnWay ws c up dots :=
    ⟨hb.absolute.trans (isAbsolute_resolve hbase hf), hup⟩
  rw [Straight, hc] at hs
  refine ⟨ws.location ++ Path.namesOf c, name, ?_, ?_⟩
  · rw [spot, hc, Path.namesOf_append, Path.namesOf_cons_name hb.component,
      Path.namesOf_eq_nil.mpr hb.idle, List.append_assoc]
  · unfold ensureParent
    rw [hparent]
    exact (hway.makeDirectories htrue hbase
      (fun s hs => hdots s (hc ▸ List.mem_append_left _ hs)) (hs.before (by simp)) _).paves

theorem mkdirAll_paves (htrue : h.Truthful)
    (hbase : h.files.canonicalize ws.root = .ok ws.location) (hf : Path.isContained f = true)
    (hs : ws.Straight h.files f) :
    Paved (ws.spot f) h.files (ws.resolve f) (h.mkdirAll (ws.resolve f)) := by
  have hway : OnWay ws (Path.steps f) (ws.resolve f) [] :=
    ⟨isAbsolute_resolve hbase hf, by rw [List.append_nil, steps_resolve hbase hf]⟩
  exact hway.makeDirectories htrue hbase (Path.isContained_spec hf).2.2 hs _

end Workspace

end Conformance
