import Conformance.Proofs.FileSystem.Effects
import Conformance.Proofs.Host.Status
import Conformance.Workspace

/-!
# Confined paths

Confinement looks at the lexical parents of a path, from the nearest one
up, until one is there. What it has shown when it allows a path is that
the nearest parent that is there lies in the workspace (`Anchored`): the
search cannot go past the workspace's own path, which is there, so it
never runs out of parents (`anchored_of_confineAncestor`).

That is what making the missing directories needs. Each new directory is
made in the one its parent leads to, so it is made in the workspace, and
its path then leads to it (`makeDirectories_spec`).
-/

namespace Conformance

open FileSystem

/-! ## Anchored paths -/

/-- The nearest of a path and its parents that is there lies at or below
a location. -/
inductive Anchored (root : Location) (fs : FileSystem) : Path → Prop
  | here {q loc} (hq : fs.canonicalize q = .ok loc) (hin : root <+: loc) : Anchored root fs q
  | above {q up dots name tail fault} (hq : fs.canonicalize q = .error fault)
    (hparent : Path.parent q = some up) (hb : Path.Below q up dots name tail)
    (hname : name ≠ Path.dotDot) (hup : Anchored root fs up) : Anchored root fs q

variable {root : Location} {links : Path → Prop} {fs fs' : FileSystem}

theorem Anchored.ne_nil {q : Path} (h : Anchored root fs q) : q ≠ [] := by
  cases h with
  | here hq _ => exact (canonicalize_eq_ok.mp hq).2.1
  | above _ _ hb _ _ => exact hb.ne_nil

/-- An anchored path that leads somewhere leads into the root. -/
theorem Anchored.inside {q : Path} {loc : Location} (h : Anchored root fs q)
    (hq : fs.canonicalize q = .ok loc) : root <+: loc := by
  cases h with
  | here hq' hin =>
      obtain rfl := Except.ok.inj (hq.symm.trans hq')
      exact hin
  | above hq' _ _ _ _ =>
      rw [hq] at hq'
      cases hq'

/-! ## The search for an ancestor -/

/-- Something that the path of the workspace passes is there. -/
theorem canonicalize_of_prefix {base up : Path} {loc : Location} {rest : List Bytes}
    (hbase : fs.canonicalize base = .ok loc) (hup : up ≠ [])
    (habs : Path.isAbsolute up = Path.isAbsolute base)
    (hsteps : Path.solid base = Path.steps up ++ rest) :
    ∃ l, fs.canonicalize up = .ok l := by
  obtain ⟨hnul, -, ⟨k, hleads⟩, hl⟩ := canonicalize_eq_ok.mp hbase
  have horigin : fs.origin up = fs.origin base := by simp [origin, habs]
  have hsep : (0 : UInt8) ≠ Path.separator := by decide
  have hnul' : 0 ∉ up := by
    rw [Path.mem_iff_mem_solid hsep] at hnul ⊢
    rintro ⟨s, hs, h0⟩
    refine hnul ⟨s, ?_, h0⟩
    rw [hsteps, Path.steps_eq]
    exact List.mem_append_left _ (List.mem_append_left _ hs)
  have halong : Path.steps base = Path.steps up ++ (rest ++ Path.slashStep base) := by
    rw [Path.steps_eq, hsteps, List.append_assoc]
  rw [halong] at hleads
  by_cases hrest : rest ++ Path.slashStep base = []
  · rw [hrest, List.append_nil] at hleads
    exact ⟨loc, canonicalize_eq_ok.mpr ⟨hnul', hup, ⟨k, by rw [horigin]; exact hleads⟩, hl⟩⟩
  · obtain ⟨m, l, hbefore, hafter⟩ := hleads.split hrest
    obtain ⟨mode, hdir⟩ := hafter.directory hrest
    exact ⟨l, canonicalize_eq_ok.mpr ⟨hnul', hup, ⟨m, by rw [horigin]; exact hbefore⟩, by
      rw [hdir]; rfl⟩⟩

theorem solid_ne_nil_of_relative {base : Path} {loc : Location}
    (hbase : fs.canonicalize base = .ok loc) (hrel : Path.isAbsolute base = false) :
    Path.solid base ≠ [] :=
  Path.solid_ne_nil (canonicalize_eq_ok.mp hbase).2.1 hrel

/-- The parent of a name below the workspace's path is on that path, or is
itself a name below it. -/
theorem parent_on_or_below {base q up : Path} {loc : Location} {dots tail r : List Bytes}
    {name : Bytes} (hbase : fs.canonicalize base = .ok loc) (hb : Path.Below q up dots name tail)
    (habs : Path.isAbsolute q = Path.isAbsolute base)
    (hq : Path.steps q = Path.solid base ++ r) (hr : ∃ s ∈ r, Path.component? s ≠ none) :
    up ≠ [] ∧ name ∈ r ∧ ((∃ rest, Path.solid base = Path.steps up ++ rest)
      ∨ ∃ r', Path.steps up = Path.solid base ++ r' ∧ (∀ s ∈ r', s ∈ r)
          ∧ ∃ s ∈ r', Path.component? s ≠ none) := by
  -- The last component of `q` is below the workspace's path.
  obtain ⟨c, hc, rfl⟩ := hb.split_rest hq hr
  refine ⟨?_, by simp, ?_⟩
  · intro hnil
    have hdots := hb.bare hnil
    rw [hnil, hdots] at hc
    have hsolid := (List.append_eq_nil_iff.mp hc.symm).1
    have hrel : Path.isAbsolute base = false := by
      rw [← habs, ← hb.absolute, hnil]
      rfl
    exact solid_ne_nil_of_relative hbase hrel hsolid
  · rcases List.append_eq_append_iff.mp hc with ⟨d, hd, -⟩ | ⟨d, hd, rfl⟩
    · exact .inl ⟨d, hd⟩
    · by_cases hcomp : ∃ s ∈ d, Path.component? s ≠ none
      · exact .inr ⟨d, hd, fun s hs => by simp [hs], hcomp⟩
      · left
        -- The parent ends with a component, so nothing is left of `d`.
        cases hlast : d.getLast? with
        | none =>
            rw [List.getLast?_eq_none_iff.mp hlast, List.append_nil] at hd
            exact ⟨[], by rw [hd, List.append_nil]⟩
        | some s =>
            have hs : s ∈ d := List.mem_of_getLast? hlast
            have hend : (Path.steps up).getLast? = some s := by
              rw [hd, List.getLast?_append, hlast]
              rfl
            rcases hb.trimmed s hend with hcs | ⟨hdot, hrel⟩
            · exact absurd ⟨s, hs, hcs⟩ hcomp
            · exfalso
              rw [hd] at hdot
              have hrel' : Path.isAbsolute base = false := by
                rw [← habs, ← hb.absolute, hrel]
              cases hsolid : Path.solid base with
              | nil => exact solid_ne_nil_of_relative hbase hrel' hsolid
              | cons x xs =>
                  rw [hsolid, List.cons_append, List.cons.injEq] at hdot
                  rw [(List.append_eq_nil_iff.mp hdot.2).2] at hlast
                  cases hlast

/-- **The search.** Where it allows a path, the nearest parent that is
there lies in the workspace. -/
theorem anchored_of_confineAncestor {ws : Workspace} {action : String} {path : Path}
    (hbase : fs.canonicalize ws.root = .ok ws.location) :
    ∀ (fuel : Nat) {q up : Path} {dots tail r : List Bytes} {name : Bytes},
      Path.Below q up dots name tail → Path.isAbsolute q = Path.isAbsolute ws.root →
      Path.steps q = Path.solid ws.root ++ r → (∀ s ∈ r, s ≠ Path.dotDot) →
      (∃ s ∈ r, Path.component? s ≠ none) → (Path.steps up).length < fuel →
      ws.confineAncestor fs action path fuel (some up) = .ok () →
      Anchored ws.location fs up := by
  intro fuel
  induction fuel with
  | zero => intro q up dots tail r name _ _ _ _ _ hlen; exact absurd hlen (Nat.not_lt_zero _)
  | succ fuel ih =>
      intro q up dots tail r name hb habs hq hdots hr hlen hok
      obtain ⟨hup, -, hcases⟩ := parent_on_or_below hbase hb habs hq hr
      have habs' : Path.isAbsolute up = Path.isAbsolute ws.root := hb.absolute.trans habs
      rw [Workspace.confineAncestor] at hok
      cases hcanon : fs.canonicalize up with
      | ok loc =>
          simp only [hcanon] at hok
          split at hok
          · rename_i hin
            exact .here hcanon (List.isPrefixOf_iff_prefix.mp hin)
          · cases hok
      | error fault =>
          simp only [hcanon] at hok
          rcases hcases with ⟨rest, hrest⟩ | ⟨r', hsteps, hsub, hr'⟩
          · obtain ⟨l, hl⟩ := canonicalize_of_prefix hbase hup habs' hrest
            rw [hcanon] at hl
            cases hl
          · have hdots' : ∀ s ∈ r', s ≠ Path.dotDot := fun s hs => hdots s (hsub s hs)
            obtain ⟨s, hs, hcomp⟩ := hr'
            obtain ⟨up', dots', name', tail', hparent, hb'⟩ :=
              Path.below_parent (p := up)
                ⟨s, by rw [hsteps]; exact List.mem_append_right _ hs, hcomp⟩
            obtain ⟨-, hmem, -⟩ := parent_on_or_below hbase hb' habs' hsteps ⟨s, hs, hcomp⟩
            rw [hparent] at hok
            split at hok
            · refine .above hcanon hparent hb' (hdots' name' hmem)
                (ih hb' habs' hsteps hdots' ⟨s, hs, hcomp⟩ ?_ hok)
              have hlen' := congrArg List.length hb'.along
              simp only [List.length_append, List.length_cons] at hlen'
              omega
            · cases hok

/-! ## Making directories -/

/-- What is left of making a directory and those above it. -/
structure Made (root : Location) (links : Path → Prop) (fs : FileSystem) (q : Path)
    (a : Attempt) : Prop where
  edits : Edits root links fs a.files
  grows : Grows fs a.files
  tree : a.files.IsTree
  /-- On success the path leads into the root, and what is new is empty. -/
  leads : a.fault = none → ∃ l, a.files.canonicalize q = .ok l ∧ root <+: l
    ∧ (a.files = fs ∨ ∀ name, a.files.get? (l ++ [name]) = none)

theorem made_unchanged (htree : fs.IsTree) {q : Path} {fault : Option OsFault}
    (hleads : fault = none → ∃ l, fs.canonicalize q = .ok l ∧ root <+: l) :
    Made root links fs q ⟨fs, fault⟩ := by
  refine ⟨.refl, .refl fs, htree, fun hnone => ?_⟩
  obtain ⟨l, hl, hin⟩ := hleads hnone
  exact ⟨l, hl, hin, .inl rfl⟩

/-- A directory that was made is where the parent of its path leads, and
nothing is in it. -/
theorem mkdir_below (htree : fs.IsTree) {q up : Path} {dots tail : List Bytes} {name : Bytes}
    (hb : Path.Below q up dots name tail) (hup : up ≠ [])
    (hin : ∀ l, fs.canonicalize up = .ok l → root <+: l) (hmk : fs.mkdir q = .ok fs') :
    Edits root links fs fs' ∧ Grows fs fs' ∧ fs'.IsTree
      ∧ ∃ l, fs'.canonicalize q = .ok l ∧ root <+: l ∧ ∀ name, fs'.get? (l ++ [name]) = none := by
  obtain ⟨place, mode, hplace, hnamed, hshort, hfree, -, rfl⟩ := mkdir_ok hmk
  obtain ⟨hcanon, -, -⟩ := locatePlace_below hb hup hplace hnamed
  obtain ⟨hadm, -, dirMode, hdir, -⟩ := locatePlace_ok hplace
  obtain ⟨hnul, hnil, -⟩ := admissible_eq_ok.mp hadm
  have hinside : root <+: place.location := (hin _ hcanon).trans (List.prefix_append ..)
  have hedits : Edits root links fs (fs.add place.location (.directory mode)) :=
    .single (.add (hin _ hcanon) hdir hfree (by simp))
  have hnode : (fs.add place.location (.directory mode)).get? place.location
      = some (.directory mode) := by
    rw [get?_add, if_pos rfl]
  refine ⟨hedits, grows_add hfree _, hedits.isTree htree, place.location, ?_, hinside,
    fun name => ?_⟩
  · refine canonicalize_eq_ok.mpr ⟨hnul, hnil, ?_, by rw [hnode]; rfl⟩
    exact leadsTo_place hplace hnamed hshort (grows_add hfree _) hnode (by simp) fun _ => rfl
  · rw [get?_add, if_neg (by simp)]
    exact bare_of_not_directory htree (by simp [hfree]) name

/-- Nothing is made where something is. -/
theorem makeDirectories_of_canonicalize {h : Host} {q : Path} {l : Location}
    (hq : h.files.canonicalize q = .ok l) (fuel : Nat) :
    (h.makeDirectories fuel q).files = h.files := by
  obtain ⟨fault, hmk, hnot⟩ := mkdir_error_of_canonicalize hq
  unfold Host.makeDirectories
  rw [if_neg (canonicalize_eq_ok.mp hq).2.1, hmk]
  dsimp only
  rw [if_pos (by simp [hnot])]
  split <;> rfl

theorem made_of_canonicalize {h : Host} (htree : h.files.IsTree) {q : Path} {l : Location}
    (hq : h.files.canonicalize q = .ok l) (hin : root <+: l) (fuel : Nat) :
    Made root links h.files q (h.makeDirectories fuel q) := by
  have hfiles := makeDirectories_of_canonicalize hq fuel
  generalize h.makeDirectories fuel q = a at hfiles ⊢
  obtain ⟨files, fault⟩ := a
  obtain rfl : files = h.files := hfiles
  exact made_unchanged htree fun _ => ⟨l, hq, hin⟩

/-- A path that leads through a directory in which nothing is leads
nowhere. -/
theorem find_below_empty {q up : Path} {dots tail : List Bytes} {name : Bytes} {l l' : Location}
    {node : Node} {follow : Bool} (hb : Path.Below q up dots name tail)
    (hname : name ≠ Path.dotDot) (hup : up ≠ []) (hl : fs.canonicalize up = .ok l)
    (hfree : ∀ name, fs.get? (l ++ [name]) = none) : fs.find follow q ≠ .ok (l', node) := by
  intro hfind
  obtain ⟨hadm, hleads, -⟩ := find_eq_ok.mp hfind
  obtain ⟨hnul, -⟩ := admissible_eq_ok.mp hadm
  obtain ⟨dir, m, k, hdir, hrest⟩ := leadsTo_below hb hup hnul hleads
  obtain rfl := Except.ok.inj (hl.symm.trans hdir)
  obtain ⟨hnil, hdot⟩ := hb.name_ne
  have hthere := hrest.looked_up hnil hdot hname
  rw [hfree name] at hthere
  cases hthere

/-- A directory is made below one that was made, or is there already. -/
theorem Made.below {h : Host} (htrue : h.Truthful) {q up : Path} {dots tail : List Bytes}
    {name : Bytes} (hb : Path.Below q up dots name tail) (hname : name ≠ Path.dotDot)
    (hup : up ≠ []) (hq : ∀ l node, h.files.find true q = .ok (l, node) → root <+: l)
    {files : FileSystem} (hmade : Made root links h.files up ⟨files, none⟩) :
    Made root links h.files q
      (match files.mkdir q with
      | .ok fs' => ⟨fs', none⟩
      | .error fault =>
        if ({ h with files } : Host).isDirectory q then ⟨files, none⟩
        else ⟨files, some fault⟩) := by
  obtain ⟨lup, hlup, hin, hfresh⟩ := hmade.leads rfl
  cases hmk : files.mkdir q with
  | ok fs' =>
      obtain ⟨hedits, hgrow, htree', l, hl, hin', hfree⟩ :=
        mkdir_below hmade.tree hb hup (fun l hl => Except.ok.inj (hlup.symm.trans hl) ▸ hin) hmk
      exact ⟨hmade.edits.trans hedits, hmade.grows.trans hgrow, htree',
        fun _ => ⟨l, hl, hin', .inr hfree⟩⟩
  | error fault =>
      dsimp only
      split
      · rename_i hdir
        have htrue' : ({ h with files } : Host).Truthful := htrue
        obtain ⟨l, node, hfind⟩ := Host.find_of_isDirectory htrue' hdir
        refine ⟨hmade.edits, hmade.grows, hmade.tree, fun _ => ?_⟩
        -- Something is there only if nothing had to be made.
        rcases hfresh with rfl | hfree
        · exact ⟨l, canonicalize_of_find hfind, hq l node hfind, .inl rfl⟩
        · exact absurd hfind (find_below_empty hb hname hup hlup hfree)
      · exact ⟨hmade.edits, hmade.grows, hmade.tree, fun hnone => by cases hnone⟩

/-- **The step.** Making a path's directories, if that is known of its
parent, and the path leads into the root if it leads anywhere. -/
theorem makeDirectories_step {h : Host} (htrue : h.Truthful) (htree : h.files.IsTree)
    {q up : Path} {dots tail : List Bytes} {name : Bytes} (hparent : Path.parent q = some up)
    (hb : Path.Below q up dots name tail) (hname : name ≠ Path.dotDot)
    (hup : Anchored root h.files up)
    (hq : ∀ l node, h.files.find true q = .ok (l, node) → root <+: l)
    (ih : ∀ fuel, Made root links h.files up (h.makeDirectories fuel up)) (fuel : Nat) :
    Made root links h.files q (h.makeDirectories fuel q) := by
  unfold Host.makeDirectories
  rw [if_neg hb.ne_nil]
  cases hmk : h.files.mkdir q with
  | ok fs' =>
      obtain ⟨hedits, hgrow, htree', l, hl, hin, hfree⟩ :=
        mkdir_below htree hb hup.ne_nil (fun l hl => hup.inside hl) hmk
      exact ⟨hedits, hgrow, htree', fun _ => ⟨l, hl, hin, .inr hfree⟩⟩
  | error fault =>
      dsimp only
      split
      · split
        · rename_i hdir
          obtain ⟨l, node, hfind⟩ := Host.find_of_isDirectory htrue hdir
          exact made_unchanged htree fun _ => ⟨l, canonicalize_of_find hfind, hq l node hfind⟩
        · exact made_unchanged htree fun hnone => by cases hnone
      · rw [hparent]
        cases fuel with
        | zero => exact made_unchanged htree fun hnone => by cases hnone
        | succ fuel =>
            have hmade := ih fuel
            dsimp only
            generalize h.makeDirectories fuel up = a at hmade ⊢
            obtain ⟨files, fault'⟩ := a
            cases fault' with
            | some fault' =>
                exact ⟨hmade.edits, hmade.grows, hmade.tree, fun hnone => by cases hnone⟩
            | none => exact hmade.below htrue hb hname hup.ne_nil hq

/-- **Missing directories.** Making an anchored path's directories makes
them in the root. -/
theorem makeDirectories_spec {h : Host} (htrue : h.Truthful) (htree : h.files.IsTree) {q : Path}
    (hq : Anchored root h.files q) :
    ∀ fuel, Made root links h.files q (h.makeDirectories fuel q) := by
  generalize hfs : h.files = fs at hq
  subst hfs
  induction hq with
  | here hcanon hin => exact made_of_canonicalize htree hcanon hin
  | above hcanon hparent hb hname hup ih =>
      refine makeDirectories_step htrue htree hparent hb hname hup (fun l node hfind => ?_) ih
      rw [canonicalize_of_find hfind] at hcanon
      cases hcanon

end Conformance
