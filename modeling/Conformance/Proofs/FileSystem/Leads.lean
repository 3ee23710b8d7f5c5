import Conformance.Proofs.FileSystem.Nodes

/-!
# Walks that end well

`Leads` is a walk along names that ends at a location: one constructor
for each thing a name can do, with the number of links that may still be
followed before and after. It is what `walk` computes (`walk_eq_ok`).

As a relation it composes and splits. A walk along `a ++ b` is one along
`a` that follows every link, and then one along `b` (`Leads.append`,
`Leads.split`); a walk is still there after the files have grown
(`Leads.mono`); and whether the last link is followed matters only for a
walk that ends at a link (`Leads.of_follow`, `Leads.follow_of_ne_link`).
-/

namespace Conformance.FileSystem

/-- A name can be looked up in the directory at a location. -/
structure Looks (fs : FileSystem) (loc : Location) (name : Bytes) : Prop where
  dir : ∃ mode, fs.get? loc = some (.directory mode) ∧ mode.has 0o100 = true
  ne_nil : name ≠ []
  ne_dot : name ≠ Path.dot
  ne_dotDot : name ≠ Path.dotDot
  short : name.length ≤ maxName

/-- Names lead from one location to another. The numbers are those of
the links that may be followed before and after. -/
inductive Leads (fs : FileSystem) :
    Bool → Nat → Location → List Bytes → Nat → Location → Prop
  | done {follow n loc} : Leads fs follow n loc [] n loc
  /-- The separator at the end of a path asks for a directory. -/
  | stay {follow n loc rest m l mode} (hdir : fs.get? loc = some (.directory mode))
    (h : Leads fs follow n loc rest m l) : Leads fs follow n loc ([] :: rest) m l
  | here {follow n loc rest m l mode} (hdir : fs.get? loc = some (.directory mode))
    (hmode : mode.has 0o100 = true) (h : Leads fs follow n loc rest m l) :
    Leads fs follow n loc (Path.dot :: rest) m l
  | up {follow n loc rest m l mode} (hdir : fs.get? loc = some (.directory mode))
    (hmode : mode.has 0o100 = true) (h : Leads fs follow n loc.dropLast rest m l) :
    Leads fs follow n loc (Path.dotDot :: rest) m l
  | down {follow n loc name rest m l node} (hlook : Looks fs loc name)
    (hnode : fs.get? (loc ++ [name]) = some node) (hlink : ∀ target, node ≠ .link target)
    (h : Leads fs follow n (loc ++ [name]) rest m l) :
    Leads fs follow n loc (name :: rest) m l
  | through {follow n loc name rest m l target} (hlook : Looks fs loc name)
    (hnode : fs.get? (loc ++ [name]) = some (.link target))
    (hon : rest ≠ [] ∨ follow = true)
    (h : Leads fs follow n (if Path.isAbsolute target then [] else loc)
      (Path.steps target ++ rest) m l) :
    Leads fs follow (n + 1) loc (name :: rest) m l
  /-- A link at the end that is not to be followed. -/
  | atLink {n loc name target} (hlook : Looks fs loc name)
    (hnode : fs.get? (loc ++ [name]) = some (.link target)) :
    Leads fs false n loc [name] n (loc ++ [name])

/-! ## What `walk` computes -/

theorem isDirectory_iff {node : Node} :
    node.isDirectory = true ↔ ∃ mode, node = .directory mode := by
  cases node with
  | directory mode => simp [Node.isDirectory]
  | file mode content => simp [Node.isDirectory]
  | link target => simp [Node.isDirectory]

/-- What the checks of a walk that come before a name is looked up ask
for. -/
theorem looks_of_checks {fs : FileSystem} {loc : Location} {name : Bytes} {node : Node}
    (hnode : fs.get? loc = some node) (hdir : ¬ (!node.isDirectory) = true)
    (hsearch : ¬ (!node.searchable) = true) (hnil : name ≠ []) (hdot : name ≠ Path.dot)
    (hdots : name ≠ Path.dotDot) (hlong : ¬ maxName < name.length) : Looks fs loc name := by
  obtain ⟨mode, rfl⟩ := isDirectory_iff.mp (by simpa using hdir)
  exact ⟨⟨mode, hnode, by simpa [Node.searchable, Node.permissions] using hsearch⟩, hnil, hdot,
    hdots, Nat.le_of_not_lt hlong⟩

/-- A name that can be looked up decides alone how a walk goes on. -/
theorem walk_of_looks {fs : FileSystem} {loc : Location} {name : Bytes}
    (hlook : Looks fs loc name) (follow : Bool) (n : Nat) (rest : List Bytes) :
    fs.walk follow n loc (name :: rest)
      = match fs.get? (loc ++ [name]) with
        | none => .error .noEntry
        | some (.link target) =>
          if rest = [] && !follow then .ok (loc ++ [name])
          else
            match n with
            | 0 => .error .loop
            | n + 1 =>
              fs.walk follow n (if Path.isAbsolute target then [] else loc)
                (Path.steps target ++ rest)
        | some _ => fs.walk follow n (loc ++ [name]) rest := by
  obtain ⟨⟨mode, hdir, hmode⟩, hnil, hdot, hdots, hshort⟩ := hlook
  rw [walk]
  rcases fs.get? (loc ++ [name]) with _ | node
  · simp [hdir, Node.isDirectory, Node.searchable, Node.permissions, hmode, hnil, hdot, hdots,
      Nat.not_lt.mpr hshort]
  · cases node <;> cases n <;> simp [hdir, Node.isDirectory, Node.searchable, Node.permissions,
      hmode, hnil, hdot, hdots, Nat.not_lt.mpr hshort]

theorem leads_of_walk {fs : FileSystem} {follow : Bool} {n : Nat} {loc : Location}
    {names : List Bytes} {l : Location} (h : walk fs follow n loc names = .ok l) :
    ∃ m, Leads fs follow n loc names m l := by
  -- Only the cases in which `walk` does not answer with an error remain.
  fun_induction walk fs follow n loc names with
  | case1 => cases h; exact ⟨_, .done⟩
  | case2 => cases h
  | case3 => cases h
  | case4 n loc rest node hnode hdir ih =>
      obtain ⟨m, hm⟩ := ih h
      obtain ⟨mode, rfl⟩ := isDirectory_iff.mp (by simpa using hdir)
      exact ⟨m, .stay hnode hm⟩
  | case5 => cases h
  | case6 n loc rest node hnode hdir hsearch _ ih =>
      obtain ⟨m, hm⟩ := ih h
      obtain ⟨mode, rfl⟩ := isDirectory_iff.mp (by simpa using hdir)
      exact ⟨m, .here hnode (by simpa [Node.searchable, Node.permissions] using hsearch) hm⟩
  | case7 n loc rest node hnode hdir hsearch _ _ ih =>
      obtain ⟨m, hm⟩ := ih h
      obtain ⟨mode, rfl⟩ := isDirectory_iff.mp (by simpa using hdir)
      exact ⟨m, .up hnode (by simpa [Node.searchable, Node.permissions] using hsearch) hm⟩
  | case8 => cases h
  | case9 => cases h
  | case10 n loc name rest node hnode hdir hnil hsearch hdot hdots hlong target hlink hlast =>
      simp only [Bool.and_eq_true, decide_eq_true_eq, Bool.not_eq_true'] at hlast
      obtain ⟨rfl, rfl⟩ := hlast
      cases h
      exact ⟨_, .atLink (looks_of_checks hnode hdir hsearch hnil hdot hdots hlong) hlink⟩
  | case11 => cases h
  | case12 loc name rest node hnode hdir hnil hsearch hdot hdots hlong target hlink hon n ih =>
      obtain ⟨m, hm⟩ := ih h
      refine ⟨m, .through (looks_of_checks hnode hdir hsearch hnil hdot hdots hlong) hlink ?_ hm⟩
      by_cases hrest : rest = []
      · exact .inr (by simpa [hrest] using hon)
      · exact .inl hrest
  | case13 n loc name rest node hnode hdir hnil hsearch hdot hdots hlong node' hlink hnode' ih =>
      obtain ⟨m, hm⟩ := ih h
      exact ⟨m, .down (looks_of_checks hnode hdir hsearch hnil hdot hdots hlong) hnode'
        (fun target heq => hlink target heq) hm⟩

theorem Leads.walk {fs : FileSystem} {follow : Bool} {n m : Nat} {loc l : Location}
    {names : List Bytes} (h : Leads fs follow n loc names m l) :
    fs.walk follow n loc names = .ok l := by
  induction h with
  | done => simp [FileSystem.walk]
  | stay hdir _ ih => rw [FileSystem.walk]; simp [hdir, Node.isDirectory, ih]
  | here hdir hmode _ ih =>
      rw [FileSystem.walk]
      simp [hdir, Node.isDirectory, Node.searchable, Node.permissions, hmode, ih, Path.dot]
  | up hdir hmode _ ih =>
      rw [FileSystem.walk]
      simp [hdir, Node.isDirectory, Node.searchable, Node.permissions, hmode, ih, Path.dot,
        Path.dotDot]
  | @down follow n loc name rest m l node hlook hnode hlink _ ih =>
      rw [walk_of_looks hlook, hnode]
      cases node with
      | link target => exact absurd rfl (hlink target)
      | directory mode => exact ih
      | file mode content => exact ih
  | @through follow n loc name rest m l target hlook hnode hon _ ih =>
      have hgo : ¬ (decide (rest = []) && !follow) = true := by
        rcases hon with hrest | hfollow
        · simp [hrest]
        · simp [hfollow]
      rw [walk_of_looks hlook, hnode]
      exact (if_neg hgo).trans ih
  | atLink hlook hnode =>
      rw [walk_of_looks hlook, hnode]
      simp

theorem walk_eq_ok {fs : FileSystem} {follow : Bool} {n : Nat} {loc l : Location}
    {names : List Bytes} :
    walk fs follow n loc names = .ok l ↔ ∃ m, Leads fs follow n loc names m l :=
  ⟨leads_of_walk, fun ⟨_, h⟩ => h.walk⟩

/-- Names lead to one location at most. -/
theorem Leads.unique {fs : FileSystem} {follow : Bool} {n m m' : Nat} {loc l l' : Location}
    {names : List Bytes} (h : Leads fs follow n loc names m l)
    (h' : Leads fs follow n loc names m' l') : l' = l :=
  Except.ok.inj (h'.walk.symm.trans h.walk)

/-! ## One walk after another -/

namespace Leads

variable {fs fs' : FileSystem} {follow : Bool} {n m k : Nat} {loc l l' : Location}
  {a b names : List Bytes}

theorem append (h : Leads fs true n loc a m l) (h' : Leads fs follow m l b k l')
    (hb : b ≠ [] ∨ follow = true) : Leads fs follow n loc (a ++ b) k l' := by
  generalize hon : true = on at h
  induction h with
  | done => exact h'
  | stay hdir _ ih => exact .stay hdir (ih h' hon)
  | here hdir hmode _ ih => exact .here hdir hmode (ih h' hon)
  | up hdir hmode _ ih => exact .up hdir hmode (ih h' hon)
  | down hlook hnode hlink _ ih => exact .down hlook hnode hlink (ih h' hon)
  | through hlook hnode _ _ ih =>
      have hrest := ih h' hon
      rw [List.append_assoc] at hrest
      refine .through hlook hnode ?_ hrest
      rcases hb with hb | hfollow
      · exact .inl (by simp [hb])
      · exact .inr hfollow
  | atLink => cases hon

/-- Whatever comes of it, a walk goes on where its first part ends. -/
theorem walk_append (h : Leads fs true n loc a m l) (hb : b ≠ []) :
    fs.walk follow n loc (a ++ b) = fs.walk follow m l b := by
  generalize hon : true = on at h
  induction h with
  | done => rfl
  | stay hdir _ ih =>
      rw [List.cons_append, FileSystem.walk]
      simp [hdir, Node.isDirectory, ih hon]
  | here hdir hmode _ ih =>
      rw [List.cons_append, FileSystem.walk]
      simp [hdir, Node.isDirectory, Node.searchable, Node.permissions, hmode, ih hon, Path.dot]
  | up hdir hmode _ ih =>
      rw [List.cons_append, FileSystem.walk]
      simp [hdir, Node.isDirectory, Node.searchable, Node.permissions, hmode, ih hon, Path.dot,
        Path.dotDot]
  | @down _ _ _ _ _ _ _ node hlook hnode hlink _ ih =>
      rw [List.cons_append, walk_of_looks hlook, hnode]
      cases node with
      | link target => exact absurd rfl (hlink target)
      | directory mode => exact ih hon
      | file mode content => exact ih hon
  | through hlook hnode _ _ ih =>
      have hrest := ih hon
      rw [List.append_assoc] at hrest
      rw [List.cons_append, walk_of_looks hlook, hnode]
      exact (if_neg (by simp [hb])).trans hrest
  | atLink _ _ => cases hon

/-- What follows decides nothing about the walk before it, in which
every link is on the way. -/
theorem split (h : Leads fs follow n loc (a ++ b) k l) (hb : b ≠ []) :
    ∃ m l₁, Leads fs true n loc a m l₁ ∧ Leads fs follow m l₁ b k l := by
  generalize hnames : a ++ b = names at h
  induction h generalizing a with
  | done => exact absurd (List.append_eq_nil_iff.mp hnames).2 hb
  | @stay follow n loc rest k l mode hdir h ih =>
      rcases List.append_eq_cons_iff.mp hnames with ⟨rfl, rfl⟩ | ⟨a', rfl, rfl⟩
      · exact ⟨_, _, .done, .stay hdir h⟩
      · obtain ⟨m, l₁, h₁, h₂⟩ := ih rfl
        exact ⟨m, l₁, .stay hdir h₁, h₂⟩
  | @here follow n loc rest k l mode hdir hmode h ih =>
      rcases List.append_eq_cons_iff.mp hnames with ⟨rfl, rfl⟩ | ⟨a', rfl, rfl⟩
      · exact ⟨_, _, .done, .here hdir hmode h⟩
      · obtain ⟨m, l₁, h₁, h₂⟩ := ih rfl
        exact ⟨m, l₁, .here hdir hmode h₁, h₂⟩
  | @up follow n loc rest k l mode hdir hmode h ih =>
      rcases List.append_eq_cons_iff.mp hnames with ⟨rfl, rfl⟩ | ⟨a', rfl, rfl⟩
      · exact ⟨_, _, .done, .up hdir hmode h⟩
      · obtain ⟨m, l₁, h₁, h₂⟩ := ih rfl
        exact ⟨m, l₁, .up hdir hmode h₁, h₂⟩
  | @down follow n loc name rest k l node hlook hnode hlink h ih =>
      rcases List.append_eq_cons_iff.mp hnames with ⟨rfl, rfl⟩ | ⟨a', rfl, rfl⟩
      · exact ⟨_, _, .done, .down hlook hnode hlink h⟩
      · obtain ⟨m, l₁, h₁, h₂⟩ := ih rfl
        exact ⟨m, l₁, .down hlook hnode hlink h₁, h₂⟩
  | @through follow n loc name rest k l target hlook hnode hon h ih =>
      rcases List.append_eq_cons_iff.mp hnames with ⟨rfl, rfl⟩ | ⟨a', rfl, rfl⟩
      · exact ⟨_, _, .done, .through hlook hnode hon h⟩
      · obtain ⟨m, l₁, h₁, h₂⟩ := ih (a := Path.steps target ++ a') (List.append_assoc ..)
        exact ⟨m, l₁, .through hlook hnode (.inr rfl) h₁, h₂⟩
  | @atLink n loc name target hlook hnode =>
      rcases List.append_eq_cons_iff.mp hnames with ⟨rfl, rfl⟩ | ⟨a', rfl, hnil⟩
      · exact ⟨_, _, .done, .atLink hlook hnode⟩
      · exact absurd (List.append_eq_nil_iff.mp hnil.symm).2 hb

/-- A name leads on only from a directory. -/
theorem directory (h : Leads fs follow n loc names m l) (hne : names ≠ []) :
    ∃ mode, fs.get? loc = some (.directory mode) := by
  cases h with
  | done => exact absurd rfl hne
  | stay hdir _ => exact ⟨_, hdir⟩
  | here hdir _ _ => exact ⟨_, hdir⟩
  | up hdir _ _ => exact ⟨_, hdir⟩
  | down hlook _ _ _ => exact ⟨_, hlook.dir.choose_spec.1⟩
  | through hlook _ _ _ => exact ⟨_, hlook.dir.choose_spec.1⟩
  | atLink hlook _ => exact ⟨_, hlook.dir.choose_spec.1⟩

/-- Separators and dots lead nowhere else. -/
theorem idle (h : Leads fs follow n loc names m l)
    (hidle : ∀ s ∈ names, s = [] ∨ s = Path.dot) : l = loc ∧ m = n := by
  induction h with
  | done => exact ⟨rfl, rfl⟩
  | stay _ _ ih => exact ih fun s hs => hidle s (List.mem_cons_of_mem _ hs)
  | here _ _ _ ih => exact ih fun s hs => hidle s (List.mem_cons_of_mem _ hs)
  | up _ _ _ => exact absurd (hidle _ (List.mem_cons_self ..)) (by simp [Path.dotDot, Path.dot])
  | down hlook _ _ _ =>
      exact absurd (hidle _ (List.mem_cons_self ..)) (by simp [hlook.ne_nil, hlook.ne_dot])
  | through hlook _ _ _ =>
      exact absurd (hidle _ (List.mem_cons_self ..)) (by simp [hlook.ne_nil, hlook.ne_dot])
  | atLink hlook _ =>
      exact absurd (hidle _ (List.mem_cons_self ..)) (by simp [hlook.ne_nil, hlook.ne_dot])

/-- A last name that is not followed is the last name of where the walk
ends. -/
theorem last {name : Bytes} (h : Leads fs false n loc [name] m l) (hnil : name ≠ [])
    (hdot : name ≠ Path.dot) (hdots : name ≠ Path.dotDot) :
    l = loc ++ [name] ∧ Looks fs loc name ∧ (fs.get? l).isSome = true := by
  cases h with
  | stay => exact absurd rfl hnil
  | here => exact absurd rfl hdot
  | up => exact absurd rfl hdots
  | down hlook hnode _ h =>
      cases h
      exact ⟨rfl, hlook, by rw [hnode]; rfl⟩
  | through _ _ hon _ => simp at hon
  | atLink hlook hnode => exact ⟨rfl, hlook, by rw [hnode]; rfl⟩

/-- A name that was walked along is there. -/
theorem looked_up {name : Bytes} {rest : List Bytes}
    (h : Leads fs follow n loc (name :: rest) m l) (hnil : name ≠ []) (hdot : name ≠ Path.dot)
    (hdots : name ≠ Path.dotDot) : (fs.get? (loc ++ [name])).isSome = true := by
  cases h with
  | stay => exact absurd rfl hnil
  | here => exact absurd rfl hdot
  | up => exact absurd rfl hdots
  | down _ hnode _ _ => rw [hnode]; rfl
  | through _ hnode _ _ => rw [hnode]; rfl
  | atLink _ hnode => rw [hnode]; rfl

/-! ## Other files, other ends -/

/-- What was there to be walked along still is after the files have
grown. -/
theorem mono (hgrow : Grows fs fs') (h : Leads fs follow n loc names m l) :
    Leads fs' follow n loc names m l := by
  have hlooks : ∀ {loc name}, Looks fs loc name → Looks fs' loc name := by
    rintro loc name ⟨⟨mode, hdir, hmode⟩, hnil, hdot, hdots, hshort⟩
    exact ⟨⟨mode, hgrow.directory hdir, hmode⟩, hnil, hdot, hdots, hshort⟩
  induction h with
  | done => exact .done
  | stay hdir _ ih => exact .stay (hgrow.directory hdir) ih
  | here hdir hmode _ ih => exact .here (hgrow.directory hdir) hmode ih
  | up hdir hmode _ ih => exact .up (hgrow.directory hdir) hmode ih
  | @down _ _ _ _ _ _ _ node hlook hnode hlink _ ih =>
      obtain ⟨node', hnode', halike⟩ := hgrow.node hnode
      refine .down (hlooks hlook) hnode' (fun target heq => ?_) ih
      rcases halike with rfl | ⟨_, _, _, _, _, rfl⟩
      · exact hlink target heq
      · cases heq
  | through hlook hnode hon _ ih => exact .through (hlooks hlook) (hgrow.link hnode) hon ih
  | atLink hlook hnode => exact .atLink (hlooks hlook) (hgrow.link hnode)

/-- A walk that follows the last link is one that does not, or else that
one ends at a link. -/
theorem of_follow (h : Leads fs follow n loc names m l) :
    Leads fs false n loc names m l
      ∨ ∃ m' l' target, Leads fs false n loc names m' l'
          ∧ fs.get? l' = some (.link target) := by
  induction h with
  | done => exact .inl .done
  | stay hdir _ ih =>
      rcases ih with ih | ⟨m', l', target, ih, hend⟩
      · exact .inl (.stay hdir ih)
      · exact .inr ⟨m', l', target, .stay hdir ih, hend⟩
  | here hdir hmode _ ih =>
      rcases ih with ih | ⟨m', l', target, ih, hend⟩
      · exact .inl (.here hdir hmode ih)
      · exact .inr ⟨m', l', target, .here hdir hmode ih, hend⟩
  | up hdir hmode _ ih =>
      rcases ih with ih | ⟨m', l', target, ih, hend⟩
      · exact .inl (.up hdir hmode ih)
      · exact .inr ⟨m', l', target, .up hdir hmode ih, hend⟩
  | down hlook hnode hlink _ ih =>
      rcases ih with ih | ⟨m', l', target, ih, hend⟩
      · exact .inl (.down hlook hnode hlink ih)
      · exact .inr ⟨m', l', target, .down hlook hnode hlink ih, hend⟩
  | @through follow n loc name rest m l target hlook hnode hon _ ih =>
      by_cases hrest : rest = []
      · subst hrest
        exact .inr ⟨_, _, _, .atLink hlook hnode, hnode⟩
      · rcases ih with ih | ⟨m', l', target', ih, hend⟩
        · exact .inl (.through hlook hnode (.inl hrest) ih)
        · exact .inr ⟨m', l', target', .through hlook hnode (.inl hrest) ih, hend⟩
  | atLink hlook hnode => exact .inl (.atLink hlook hnode)

/-- A walk that does not end at a link is the same when the last link is
to be followed. -/
theorem follow_of_ne_link (h : Leads fs follow n loc names m l)
    (hend : ∀ target, fs.get? l ≠ some (.link target)) : Leads fs true n loc names m l := by
  induction h with
  | done => exact .done
  | stay hdir _ ih => exact .stay hdir (ih hend)
  | here hdir hmode _ ih => exact .here hdir hmode (ih hend)
  | up hdir hmode _ ih => exact .up hdir hmode (ih hend)
  | down hlook hnode hlink _ ih => exact .down hlook hnode hlink (ih hend)
  | through hlook hnode _ _ ih => exact .through hlook hnode (.inr rfl) (ih hend)
  | atLink _ hnode => exact absurd hnode (hend _)

end Leads

end Conformance.FileSystem
