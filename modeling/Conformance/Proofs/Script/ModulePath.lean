import Mathlib
import Conformance.Proofs.Datum.Equality
import Conformance.Proofs.FileSystem.Places
import Conformance.Proofs.Script.Readings
import Conformance.Proofs.Text.Utf8
import Conformance.Proofs.Yaml.Mappings

/-!
# Where the module of a script is

The path of a module in a script is meant from the directory of the script
(`OwnDirectory`). Behind the lexical parent of the script it leads there
(`walk_append_up`): followed from where the process is, it goes on in that
directory as the path in the script does.

A dynamic loader follows a path only if it has a separator in it, and looks
for any other name in directories of its own (`opened`). A script that is
named without a directory has an empty parent, which leaves the path in the
script as it is. So the loader is led to the directory of the script unless
both are bare names (`ofFile_module`).
-/

namespace Conformance

/-! ## Paths behind a parent -/

namespace FileSystem

variable {fs : FileSystem} {n m : Nat} {loc dir : Location} {root p up : Path}

/-- Behind a directory a path goes on from there, whatever comes of it. -/
theorem walk_append_of_leads (hroot : root ≠ []) (hrel : Path.isAbsolute p = false)
    (h : Leads fs true n loc (Path.solid root) m dir)
    (hdir : ∃ mode, fs.get? dir = some (.directory mode)) :
    fs.walk true n loc (Path.steps (Path.append root p)) = fs.walk true m dir (Path.steps p) := by
  by_cases hp : p = []
  · -- Then the directory itself is meant, maybe with a separator behind it.
    subst hp
    obtain ⟨mode, hdir⟩ := hdir
    have hhere : Leads fs true m dir [[]] m dir := .stay hdir .done
    have hnil : fs.walk true m dir (Path.steps []) = .ok dir := Leads.done.walk
    rw [Path.steps_eq, Path.solid_append_nil hroot, hnil, Path.slashStep]
    split
    · exact (h.walk_append (by simp)).trans hhere.walk
    · rw [List.append_nil]
      exact h.walk
  · rw [Path.steps_append hroot hp hrel, Path.steps_eq p]
    exact h.walk_append (List.append_ne_nil_of_left_ne_nil (Path.solid_ne_nil hp hrel) _)

/-- The directory in which the last step of a path is taken, and the links
that may still be followed from there. -/
structure OwnDirectory (fs : FileSystem) (path : Path) (m : Nat) (dir : Location) : Prop where
  leads : ∃ before name, Path.steps path = before ++ [name]
    ∧ Leads fs true maxLinks (fs.origin path) before m dir
  directory : ∃ mode, fs.get? dir = some (.directory mode)

variable {path : Path} {dots : List Bytes} {name : Bytes}

/-- Behind the parent of another path, a path is followed in the directory
of that path. -/
theorem walk_append_up (hb : Path.Below path up dots name []) (hrel : Path.isAbsolute p = false)
    (hown : OwnDirectory fs path m dir) :
    fs.walk true maxLinks (fs.origin (Path.append up p)) (Path.steps (Path.append up p))
      = fs.walk true m dir (Path.steps p) := by
  obtain ⟨before, name', hsteps, hleads⟩ := hown.leads
  obtain ⟨rfl, -⟩ := List.append_inj' (hb.along.symm.trans hsteps) rfl
  by_cases hup : up = []
  · subst hup
    -- The path stands alone, and so does the other.
    rw [hb.bare rfl] at hleads
    have habs : Path.isAbsolute path = false := hb.absolute.symm
    cases hleads
    have happend : Path.append [] p = p := by simp [Path.append, hrel]
    rw [happend, origin, origin, hrel, habs]
  · have horigin : fs.origin (Path.append up p) = fs.origin path := by
      rw [origin, Path.isAbsolute_append hup hrel, hb.absolute, origin]
    rw [horigin]
    refine walk_append_of_leads hup hrel ?_ hown.directory
    rw [Path.steps_eq up, List.append_assoc] at hleads
    refine hleads.without_idle (.inr rfl) fun s hs => ?_
    rcases List.mem_append.mp hs with hs | hs
    · exact .inl (Path.mem_slashStep hs)
    · exact .inr (hb.only_dots s hs)

/-- The path of a file is a name in a directory. -/
theorem below_of_read {content : Bytes} (hroot : ∃ mode, fs.get? [] = some (.directory mode))
    (h : fs.read path = .ok content) :
    ∃ up dots name, Path.parent path = some up ∧ Path.Below path up dots name []
      ∧ ∃ m dir, OwnDirectory fs path m dir := by
  obtain ⟨⟨l, node⟩, hfind, h⟩ := Result.bind_eq_ok.mp h
  obtain ⟨hadm, ⟨k, hleads⟩, hnode⟩ := find_eq_ok.mp hfind
  have hfile : ∀ mode, fs.get? l ≠ some (.directory mode) := by
    intro mode hdir
    obtain rfl := Option.some.inj (hnode.symm.trans hdir)
    dsimp only at h
    split at h <;> cases h
  rcases Path.component_or_idle (Path.steps path) with hcomp | hidle
  · obtain ⟨up, dots, name, tail, hparent, hb⟩ := Path.below_parent hcomp
    obtain rfl : tail = [] := by
      refine Classical.not_not.mp fun htail => ?_
      obtain ⟨mode, hdir⟩ := directory_of_tailed hb htail ⟨k, hleads⟩
      exact hfile mode hdir
    rw [hb.along] at hleads
    obtain ⟨m, dir, hbefore, hlast⟩ := hleads.split (by simp)
    exact ⟨up, dots, name, hparent, hb, m, dir, ⟨_, _, hb.along, hbefore⟩,
      hlast.directory (by simp)⟩
  · -- Without a component a path leads to the root, or stays where it starts.
    exfalso
    by_cases hsteps : Path.steps path = []
    · have habs : Path.isAbsolute path = true := by
        rw [← Bool.not_eq_false]
        intro hrel
        rw [Path.steps_eq] at hsteps
        exact Path.solid_ne_nil (admissible_eq_ok.mp hadm).2.1 hrel
          (List.append_eq_nil_iff.mp hsteps).1
      obtain ⟨mode, hdir⟩ := hroot
      rw [hsteps, origin, if_pos habs] at hleads
      cases hleads
      exact hfile mode hdir
    · obtain ⟨mode, hdir⟩ := hleads.directory hsteps
      obtain ⟨rfl, -⟩ := hleads.idle fun s hs => Path.component?_eq_none.mp (hidle s hs)
      exact hfile mode hdir

end FileSystem

/-- A path behind the parent of another one has a separator just if one of
the two has. -/
theorem Path.separator_mem_append_up {path up p name : Bytes} {dots : List Bytes}
    (hb : Below path up dots name []) (hrel : isAbsolute p = false) :
    separator ∈ append up p ↔ separator ∈ path ∨ separator ∈ p := by
  by_cases hup : up = []
  · subst hup
    have hpath : separator ∉ path := by
      have habs : isAbsolute path = false := hb.absolute.symm
      have hnil : steps [] = [] := rfl
      rw [separator_mem_iff, hb.along, hb.bare rfl, habs, hnil]
      simp
    have happend : append [] p = p := by simp [append, hrel]
    rw [happend, or_iff_right hpath]
  · have happend : separator ∈ append up p := by
      rcases append_of_relative up hrel with ⟨heq, hnil | ⟨r, rfl⟩⟩ | heq
      · exact absurd hnil hup
      · rw [heq]
        simp
      · rw [heq]
        simp
    have hpath : separator ∈ path := by
      rw [separator_mem_iff, ← hb.absolute, hb.along]
      by_cases habs : isAbsolute up = true
      · exact .inl habs
      · have hsolid := solid_ne_nil hup (by simpa using habs)
        have hpos := List.length_pos_iff.mpr hsolid
        rw [steps_eq]
        simp only [List.length_append, List.length_singleton]
        omega
    exact iff_of_true happend (.inl hpath)

/-! ## Loading -/

/-- What a dynamic loader opens: what a path leads to, or what its
directories have for a name without a separator. -/
def opened (fs : FileSystem) (libraries : Bytes → Option Location) (name : Path) :
    Option Location :=
  if Path.separator ∈ name then (fs.locate true name).toOption else libraries name

/-- A loader follows the paths that have a separator, and no others. -/
theorem opened_eq_located_iff {fs : FileSystem} {name : Path} :
    (∀ libraries, opened fs libraries name = (fs.locate true name).toOption)
      ↔ Path.separator ∈ name := by
  constructor
  · intro h
    refine Classical.not_not.mp fun hsep => ?_
    -- Its directories may have what the path does not lead to.
    cases hlocate : (fs.locate true name).toOption with
    | none =>
        have hfound := h fun _ => some []
        rw [opened, if_neg hsep, hlocate] at hfound
        cases hfound
    | some l =>
        have hmissed := h fun _ => none
        rw [opened, if_neg hsep, hlocate] at hmissed
        cases hmissed
  · intro hsep libraries
    rw [opened, if_pos hsep]

/-! ## Scripts -/

/-- A path names what another one names in the directory of a file: in
all files where that directory is, and with all that comes of following
it. An absolute path is left as it is. -/
structure NamesBeside (path p q : Path) : Prop where
  absolute : Path.isAbsolute p = true → q = p
  relative : Path.isAbsolute p = false → ∀ (fs : FileSystem) m dir, fs.OwnDirectory path m dir →
    fs.walk true FileSystem.maxLinks (fs.origin q) (Path.steps q)
      = fs.walk true m dir (Path.steps p)

namespace Script

variable {es : List (Datum × Datum)} {s : Script}

theorem ofText_ok {text : String} (h : ofText text = .ok s) :
    ∃ es, Yaml.parse? text = some (.map es) ∧ ofDatum (.map es) = .ok s := by
  unfold ofText at h
  split at h
  · rename_i d hparse
    obtain ⟨es, _, _, rfl, -⟩ := ofDatum_ok h
    exact ⟨es, hparse, h⟩
  · cases h

/-- A script in a file is the one of its text, located at the file. -/
theorem ofFile_eq_ok {files : FileSystem} {path : Path} :
    ofFile files path = .ok s ↔ ∃ text script, files.read path = .ok (Utf8.encode text)
      ∧ ofText text = .ok script ∧ locatedAt path script = s := by
  unfold ofFile
  constructor
  · intro h
    split at h
    · cases h
    · rename_i content hread
      split at h
      · cases h
      · rename_i text htext
        obtain rfl := Utf8.decode?_eq_some.mp htext
        obtain ⟨script, hscript, hs⟩ := Result.map_eq_ok.mp h
        exact ⟨text, script, hread, hscript, hs⟩
  · rintro ⟨text, script, hread, hscript, rfl⟩
    rw [hread]
    dsimp only
    rw [Utf8.decode?_encode]
    dsimp only
    rw [hscript]
    rfl

/-- The module of a script is the text that its document has. -/
theorem plugin_of_ofDatum (hdistinct : Datum.Distinct es) (h : ofDatum (.map es) = .ok s)
    {value : String} (hvalue : Datum.lookup "plugin" es = some (.text value)) :
    s.plugin = some (Path.ofText value) := by
  simp only [ofDatum] at h
  obtain ⟨kind, -, h⟩ := Result.bind_eq_ok.mp h
  obtain ⟨⟨name, r₁⟩, hname, h⟩ := Result.bind_eq_ok.mp h
  obtain ⟨⟨description, r₂⟩, hdescription, h⟩ := Result.bind_eq_ok.mp h
  obtain ⟨⟨plugin, r₃⟩, hplugin, h⟩ := Result.bind_eq_ok.mp h
  obtain ⟨timeout, -, h⟩ := Result.bind_eq_ok.mp h
  obtain ⟨steps, -, h⟩ := Result.bind_eq_ok.mp h
  cases h
  obtain rfl := takeText_ok hname
  obtain rfl := takeText_ok hdescription
  -- What was taken out before had other keys.
  have hlookup := ((Datum.distinct_remove hdistinct "name").lookup_remove
    (show "plugin" ≠ "description" by decide)).trans (hdistinct.lookup_remove (by decide))
  rw [hvalue, ← Datum.fst_remove] at hlookup
  unfold takeText at hplugin
  split at hplugin
  · rename_i hremove
    rw [hremove] at hlookup
    cases hlookup
  · rename_i hremove
    rw [hremove] at hlookup
    cases hlookup
  · rename_i text rest hremove
    rw [hremove] at hlookup
    cases hlookup
    cases hplugin
    rfl
  · cases hplugin

/-- The module of a script in a file is named beside the file. -/
theorem locatedAt_plugin {path up p name : Bytes} {dots : List Bytes}
    (hup : Path.parent path = some up) (hb : Path.Below path up dots name [])
    (hp : s.plugin = some p) :
    ∃ q, (locatedAt path s).plugin = some q ∧ NamesBeside path p q
      ∧ (Path.separator ∈ q ↔ Path.separator ∈ path ∨ Path.separator ∈ p) := by
  refine ⟨Path.append up p, by simp only [locatedAt, hp, hup], ⟨?_, ?_⟩, ?_⟩
  · intro habs
    rw [Path.append, if_pos habs]
  · exact fun hrel fs m dir hown => FileSystem.walk_append_up hb hrel hown
  · by_cases habs : Path.isAbsolute p = true
    · have hsep := (Path.separator_mem_iff p).mpr (.inl habs)
      rw [Path.append, if_pos habs]
      exact iff_of_true hsep (.inr hsep)
    · exact Path.separator_mem_append_up hb (by simpa using habs)

/-- **Modules.** A file with a script has a directory of its own, if only
the root is one. The module that the document gives is named in that
directory, or as it is by an absolute path. A loader opens what is named,
whatever its directories have, just if the path of the script or that of
the module has a separator. -/
theorem ofFile_module {files : FileSystem} {path : Path}
    (hroot : ∃ mode, files.get? [] = some (.directory mode)) (h : ofFile files path = .ok s) :
    ∃ text es, files.read path = .ok (Utf8.encode text) ∧ Yaml.parse? text = some (.map es)
      ∧ (∃ m dir, files.OwnDirectory path m dir)
      ∧ ∀ value, Datum.lookup "plugin" es = some (.text value) →
        ∃ q, s.plugin = some q ∧ NamesBeside path (Path.ofText value) q
          ∧ ((∀ libraries, opened files libraries q = (files.locate true q).toOption)
            ↔ Path.separator ∈ path ∨ Path.separator ∈ Path.ofText value) := by
  obtain ⟨text, script, hread, hscript, rfl⟩ := ofFile_eq_ok.mp h
  obtain ⟨up, dots, name, hup, hb, hown⟩ := FileSystem.below_of_read hroot hread
  obtain ⟨es, hparse, hscript⟩ := ofText_ok hscript
  refine ⟨text, es, hread, hparse, hown, fun value hvalue => ?_⟩
  have hplugin := plugin_of_ofDatum (Yaml.distinct_of_parse? hparse) hscript hvalue
  obtain ⟨q, hq, hbeside, hsep⟩ := locatedAt_plugin hup hb hplugin
  exact ⟨q, hq, hbeside, opened_eq_located_iff.trans hsep⟩

end Script

/-! ## A script with a module -/

namespace WithModule

def text : String :=
  "\x7bkind: file, plugin: m.so, steps: [\x7bkind: exists, path: f, exists: false\x7d]\x7d"

def step : Datum :=
  .map [(.text "kind", .text "exists"), (.text "path", .text "f"), (.text "exists", .bool false)]

def entries : List (Datum × Datum) :=
  [(.text "kind", .text "file"), (.text "plugin", .text "m.so"), (.text "steps", .list [step])]

/-- The directory of the script is the working directory. -/
def files : FileSystem where
  nodes := [([], .directory ⟨0o755⟩), ([Path.ofText "w"], .directory ⟨0o755⟩),
    ([Path.ofText "w", Path.ofText "s.yaml"], .file ⟨0o644⟩ (Utf8.encode text)),
    ([Path.ofText "w", Path.ofText "m.so"], .file ⟨0o755⟩ [])]
  start := [Path.ofText "w"]

def place : Location := [Path.ofText "w", Path.ofText "m.so"]

theorem parsed : Yaml.parse? text = some (.map entries) := by
  decide +kernel

theorem readable (path q : Path) (hread : files.read path = .ok (Utf8.encode text))
    (hq : (Path.parent path).map (Path.append · (Path.ofText "m.so")) = some q) :
    ∃ s, Script.ofFile files path = .ok s ∧ s.plugin = some q := by
  obtain ⟨up, hup, rfl⟩ := Option.map_eq_some_iff.mp hq
  have hscript : ∃ s, Script.ofText text = .ok s ∧ s.plugin = some (Path.ofText "m.so") := by
    rw [Script.ofText, parsed]
    exact ⟨_, rfl, rfl⟩
  obtain ⟨s, hs, hplugin⟩ := hscript
  exact ⟨Script.locatedAt path s, Script.ofFile_eq_ok.mpr ⟨text, s, hread, hs, rfl⟩, by
    simp only [Script.locatedAt, hplugin, hup]⟩

end WithModule

/-- A script in the working directory that is named with a dot has its
module opened there, whatever a loader has. -/
theorem Script.ofFile_module_dot :
    (∃ mode, WithModule.files.get? [] = some (.directory mode))
      ∧ ∃ s, ofFile WithModule.files (Path.ofText "./s.yaml") = .ok s
        ∧ s.plugin = some (Path.ofText "./m.so")
        ∧ NamesBeside (Path.ofText "./s.yaml") (Path.ofText "m.so") (Path.ofText "./m.so")
        ∧ ∀ libraries,
          opened WithModule.files libraries (Path.ofText "./m.so") = some WithModule.place := by
  obtain ⟨s, hs, hplugin⟩ :=
    WithModule.readable (Path.ofText "./s.yaml") (Path.ofText "./m.so") (by cbv) (by cbv)
  have hroot : ∃ mode, WithModule.files.get? [] = some (.directory mode) := ⟨_, rfl⟩
  obtain ⟨text, es, hread, hparse, -, hmodule⟩ := ofFile_module hroot hs
  have hfile : WithModule.files.read (Path.ofText "./s.yaml")
      = .ok (Utf8.encode WithModule.text) := by
    cbv
  obtain rfl := Utf8.encode_inj (Except.ok.inj (hfile.symm.trans hread))
  obtain rfl : WithModule.entries = es := by
    simpa using Option.some.inj (WithModule.parsed.symm.trans hparse)
  obtain ⟨q, hq, hbeside, hopened⟩ := hmodule "m.so" rfl
  obtain rfl := Option.some.inj (hplugin.symm.trans hq)
  refine ⟨hroot, s, hs, hplugin, hbeside, fun libraries => ?_⟩
  have hlocate : WithModule.files.locate true (Path.ofText "./m.so") = .ok WithModule.place := by
    cbv
  rw [hopened.mpr (.inl (by decide)) libraries, hlocate]
  rfl

/-- A script that is just named by its file leaves the name of its module
to the directories of the loader, also where the module is beside it. -/
theorem Script.ofFile_module_bare :
    ∃ s, ofFile WithModule.files (Path.ofText "s.yaml") = .ok s
      ∧ s.plugin = some (Path.ofText "m.so")
      ∧ WithModule.files.locate true (Path.ofText "m.so") = .ok WithModule.place
      ∧ Path.separator ∉ Path.ofText "m.so"
      ∧ opened WithModule.files (fun _ => none) (Path.ofText "m.so") = none := by
  obtain ⟨s, hs, hplugin⟩ :=
    WithModule.readable (Path.ofText "s.yaml") (Path.ofText "m.so") (by cbv) (by cbv)
  exact ⟨s, hs, hplugin, by cbv, by decide, by cbv⟩

end Conformance
