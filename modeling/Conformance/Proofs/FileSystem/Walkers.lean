import Mathlib.Logic.Relation
import Conformance.Proofs.FileSystem.Edits
import Conformance.Proofs.FileSystem.Leads
import Conformance.Proofs.Path.Parent

/-!
# Walks on their way

`Leads` is about walks that end well. A `Walker` is a walk that is still
on its way, wherever it will end: `step` is what it does with its next
name, and `walk` is nothing but such steps (`walk_eq_step`). So the
locations that a walk comes by are those of the walkers it reaches.

A walker that stays in a root keeps to two things: it is in the root, and
no `..` is ahead of it. In a root in which no link has a target with `..`
or an absolute one, each step keeps both (`Walker.Stays.step`).
-/

namespace Conformance.FileSystem

/-- A walk on its way: the number of links that may still be followed,
where it is, and the names ahead. -/
structure Walker where
  links : Nat
  loc : Location
  names : List Bytes

namespace Walker

/-- What a walk does with its next name: it ends with an answer, or it
goes on. -/
def step (fs : FileSystem) (follow : Bool) (w : Walker) : Except Errno Location ⊕ Walker :=
  match w.names with
  | [] => .inl (.ok w.loc)
  | name :: rest =>
    match fs.get? w.loc with
    | none => .inl (.error .noEntry)
    | some node =>
      if !node.isDirectory then .inl (.error .notDirectory)
      else if name = [] then .inr ⟨w.links, w.loc, rest⟩
      else if !node.searchable then .inl (.error .accessDenied)
      else if name = Path.dot then .inr ⟨w.links, w.loc, rest⟩
      else if name = Path.dotDot then .inr ⟨w.links, w.loc.dropLast, rest⟩
      else if maxName < name.length then .inl (.error .nameTooLong)
      else
        match fs.get? (w.loc ++ [name]) with
        | none => .inl (.error .noEntry)
        | some (.link target) =>
          if rest = [] && !follow then .inl (.ok (w.loc ++ [name]))
          else
            match w.links with
            | 0 => .inl (.error .loop)
            | links + 1 =>
              .inr ⟨links, if Path.isAbsolute target then [] else w.loc,
                Path.steps target ++ rest⟩
        | some _ => .inr ⟨w.links, w.loc ++ [name], rest⟩

/-- A walk is its first step, and then the walk from there. -/
theorem walk_eq_step (fs : FileSystem) (follow : Bool) (w : Walker) :
    fs.walk follow w.links w.loc w.names = match w.step fs follow with
      | .inl answer => answer
      | .inr w' => fs.walk follow w'.links w'.loc w'.names := by
  obtain ⟨links, loc, names⟩ := w
  unfold step
  dsimp only
  fun_cases FileSystem.walk fs follow links loc names <;> simp [*]

abbrev Reaches (fs : FileSystem) (follow : Bool) : Walker → Walker → Prop :=
  Relation.ReflTransGen fun w w' => w.step fs follow = .inr w'

theorem Reaches.walk_eq {fs : FileSystem} {follow : Bool} {w w' : Walker}
    (h : Reaches fs follow w w') :
    fs.walk follow w'.links w'.loc w'.names = fs.walk follow w.links w.loc w.names := by
  induction h with
  | refl => rfl
  | @tail w₁ w₂ _ hstep ih =>
      rw [← ih, walk_eq_step fs follow w₁, hstep]

/-! ## Walkers that stay in a root -/

/-- The walker is in a root, and no `..` is ahead of it. -/
structure Stays (root : Location) (w : Walker) : Prop where
  inside : root <+: w.loc
  onward : ∀ s ∈ w.names, s ≠ Path.dotDot

variable {fs : FileSystem} {root : Location} {follow : Bool} {w w' : Walker}

theorem Stays.ahead (hw : w.Stays root) {name : Bytes} {rest : List Bytes}
    (hnames : w.names = name :: rest) : name ≠ Path.dotDot ∧ ∀ s ∈ rest, s ≠ Path.dotDot :=
  List.forall_mem_cons.mp (hnames ▸ hw.onward)

/-- **Steps.** A walker that stays in a root goes on to one that does, or
ends in the root. -/
theorem Stays.step (hroot : fs.Rooted root fun target => Path.isContained target = true)
    (follow : Bool) (hw : w.Stays root) :
    match w.step fs follow with
    | .inl answer => ∀ l, answer = .ok l → root <+: l
    | .inr w' => w'.Stays root := by
  fun_cases Walker.step fs follow w with
  | case1 => exact fun l hl => Except.ok.inj hl ▸ hw.inside
  | case2 | case3 | case5 | case8 | case9 | case11 => rintro l ⟨⟩
  | case4 rest _ _ _ hnames => exact ⟨hw.inside, (hw.ahead hnames).2⟩
  | case6 rest _ _ _ _ hnames => exact ⟨hw.inside, (hw.ahead hnames).2⟩
  -- The next name is `..`, which is not ahead.
  | case7 rest _ _ _ _ hnames => exact absurd rfl (hw.ahead hnames).1
  | case10 => exact fun l hl => Except.ok.inj hl ▸ hw.inside.trans (List.prefix_append ..)
  -- A link is followed: its target leads on from here, and has no `..`.
  | case12 name rest hnames _ _ _ _ _ _ _ _ target hlink _ links _ =>
      obtain ⟨-, hrel, htarget⟩ := Path.isContained_spec
        (hroot.links _ target (hw.inside.trans (List.prefix_append ..)) hlink)
      refine ⟨by rw [hrel]; exact hw.inside, fun s hs => ?_⟩
      rcases List.mem_append.mp hs with hs | hs
      · exact htarget s hs
      · exact (hw.ahead hnames).2 s hs
  | case13 name rest hnames =>
      exact ⟨hw.inside.trans (List.prefix_append ..), (hw.ahead hnames).2⟩

/-- **Walks.** Wherever it comes by, a walker stays in the root. -/
theorem Stays.reaches (hroot : fs.Rooted root fun target => Path.isContained target = true)
    (hw : w.Stays root) (h : Reaches fs follow w w') : w'.Stays root := by
  induction h with
  | refl => exact hw
  | tail _ hstep ih =>
      have hnext := ih.step hroot follow
      rwa [hstep] at hnext

end Walker

end Conformance.FileSystem
