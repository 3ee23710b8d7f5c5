import Conformance.Expectation.Parcels
import Conformance.Proofs.Text.Replacement

/-!
# What becomes of placeholders

Reading a text from left to right breaks it into placeholders and letters
(`pieces`), and filling the placeholders in all at once is a matter of each
piece alone (`Placeholders.substitute`). `Placeholders.expand` fills them
in one after the other: the name of the plugin first, and then the root,
also where `$root` has come up only with that name.

So between the two steps there is a text in which some occurrences of
`$root` were asked for and some were not. `Placeholders.marked` keeps the
first apart, by a mark of their own. The two ways to fill in agree exactly
when the letters between the marks never read `$root`, or when the root is
called just that (`expand_eq_substitute_iff`). What the second step does
to marks and letters is followed by one induction (`marks_induction`), in
which each case is a step of the scan.
-/

namespace Conformance

/-! ## Pieces -/

/-- A part of a text with placeholders. -/
inductive Piece where
  | letter (c : Char)
  | plugin
  | root
  deriving DecidableEq

namespace Placeholders

def pluginWord : List Char := ['$', 'p', 'l', 'u', 'g', 'i', 'n']

def rootWord : List Char := ['$', 'r', 'o', 'o', 't']

theorem rootWord_eq : "$root".toList = rootWord := rfl

/-- The pieces of a text, read from left to right. `skip` counts the
letters of a placeholder that are still to be passed over. -/
def pieces : Nat → List Char → List Piece
  | _, [] => []
  | skip + 1, _ :: r => pieces skip r
  | 0, c :: r =>
    if pluginWord.isPrefixOf (c :: r) then .plugin :: pieces (pluginWord.length - 1) r
    else if rootWord.isPrefixOf (c :: r) then .root :: pieces (rootWord.length - 1) r
    else .letter c :: pieces 0 r

/-- What a piece was read from. -/
def written : Piece → List Char
  | .letter c => [c]
  | .plugin => pluginWord
  | .root => rootWord

/-- What a piece stands for. -/
def fill (p : Placeholders) : Piece → List Char
  | .letter c => [c]
  | .plugin => p.plugin.toList
  | .root => p.root.toList

/-- The text with every placeholder filled in at once. -/
def substitute (p : Placeholders) (text : String) : String :=
  String.ofList ((pieces 0 text.toList).flatMap p.fill)

theorem pieces_skip (skipped rest : List Char) :
    pieces skipped.length (skipped ++ rest) = pieces 0 rest := by
  induction skipped with
  | nil => rfl
  | cons c r ih => exact ih

theorem pieces_plugin (r : List Char) : pieces 0 (pluginWord ++ r) = .plugin :: pieces 0 r := by
  have hhere : pluginWord.isPrefixOf (pluginWord ++ r) = true :=
    List.isPrefixOf_iff_prefix.mpr (List.prefix_append ..)
  have hrest : pieces (pluginWord.length - 1) (pluginWord.tail ++ r) = pieces 0 r :=
    pieces_skip pluginWord.tail r
  have hword : pluginWord ++ r = '$' :: (pluginWord.tail ++ r) := rfl
  rw [hword] at hhere ⊢
  rw [pieces, if_pos hhere, hrest]

theorem not_plugin_of_root (r : List Char) : ¬ pluginWord <+: rootWord ++ r := by
  simp [pluginWord, rootWord]

theorem pieces_root (r : List Char) : pieces 0 (rootWord ++ r) = .root :: pieces 0 r := by
  have hnot : ¬ pluginWord.isPrefixOf (rootWord ++ r) = true := fun h =>
    not_plugin_of_root r (List.isPrefixOf_iff_prefix.mp h)
  have hhere : rootWord.isPrefixOf (rootWord ++ r) = true :=
    List.isPrefixOf_iff_prefix.mpr (List.prefix_append ..)
  have hrest : pieces (rootWord.length - 1) (rootWord.tail ++ r) = pieces 0 r :=
    pieces_skip rootWord.tail r
  have hword : rootWord ++ r = '$' :: (rootWord.tail ++ r) := rfl
  rw [hword] at hnot hhere ⊢
  rw [pieces, if_neg hnot, if_pos hhere, hrest]

theorem pieces_letter {c : Char} {r : List Char} (hplugin : ¬ pluginWord <+: c :: r)
    (hroot : ¬ rootWord <+: c :: r) : pieces 0 (c :: r) = .letter c :: pieces 0 r := by
  rw [← List.isPrefixOf_iff_prefix] at hplugin hroot
  rw [pieces, if_neg hplugin, if_neg hroot]

/-- A text is read piece by piece. -/
theorem pieces_induction {P : List Char → Prop} (nil : P [])
    (plugin : ∀ r, P r → P (pluginWord ++ r)) (root : ∀ r, P r → P (rootWord ++ r))
    (letter : ∀ c r, ¬ pluginWord <+: c :: r → ¬ rootWord <+: c :: r → P r → P (c :: r)) :
    ∀ text, P text
  | [] => nil
  | c :: r => by
      by_cases hplugin : pluginWord <+: c :: r
      · obtain ⟨rest, heq⟩ := hplugin
        have hshorter : rest.length < (c :: r).length := by
          have hlength := congrArg List.length heq
          simp [pluginWord] at hlength
          simp
          omega
        rw [← heq]
        exact plugin rest (pieces_induction nil plugin root letter rest)
      · by_cases hroot : rootWord <+: c :: r
        · obtain ⟨rest, heq⟩ := hroot
          have hshorter : rest.length < (c :: r).length := by
            have hlength := congrArg List.length heq
            simp [rootWord] at hlength
            simp
            omega
          rw [← heq]
          exact root rest (pieces_induction nil plugin root letter rest)
        · exact letter c r hplugin hroot (pieces_induction nil plugin root letter r)
  termination_by text => text.length
  decreasing_by
    · exact hshorter
    · exact hshorter
    · exact Nat.lt_succ_self _

/-- The pieces are the text, all of it and in its order. -/
theorem written_pieces (text : List Char) : (pieces 0 text).flatMap written = text := by
  induction text using pieces_induction with
  | nil => rfl
  | plugin r ih => rw [pieces_plugin, List.flatMap_cons, ih, written]
  | root r ih => rw [pieces_root, List.flatMap_cons, ih, written]
  | letter c r hplugin hroot ih =>
      rw [pieces_letter hplugin hroot, List.flatMap_cons, ih, written, List.singleton_append]

/-! ## Between the two steps -/

/-- A text in which the name of the plugin was put in: the letters, and a
mark for each `$root` that the text itself has asked for. -/
abbrev Marks := List (Option Char)

/-- What becomes of a piece in the first step. -/
def mark (p : Placeholders) : Piece → Marks
  | .letter c => [some c]
  | .plugin => p.plugin.toList.map some
  | .root => [none]

def marked (p : Placeholders) (text : String) : Marks :=
  (pieces 0 text.toList).flatMap p.mark

/-- The text of letters and marks, with something in the place of each
mark. -/
def unmark (atMark : List Char) (marks : Marks) : List Char :=
  marks.flatMap fun
    | some c => [c]
    | none => atMark

/-- The letters of `$root` where it was not asked for. -/
def rootMarks : Marks := rootWord.map some

@[simp] theorem unmark_nil (atMark : List Char) : unmark atMark [] = [] := rfl

@[simp] theorem unmark_mark (atMark : List Char) (m : Marks) :
    unmark atMark (none :: m) = atMark ++ unmark atMark m := rfl

@[simp] theorem unmark_letter (atMark : List Char) (c : Char) (m : Marks) :
    unmark atMark (some c :: m) = c :: unmark atMark m := rfl

@[simp] theorem unmark_append (atMark : List Char) (m m' : Marks) :
    unmark atMark (m ++ m') = unmark atMark m ++ unmark atMark m' := by
  simp [unmark]

@[simp] theorem unmark_letters (atMark letters : List Char) :
    unmark atMark (letters.map some) = letters := by
  induction letters with
  | nil => rfl
  | cons c r ih => rw [List.map_cons, unmark_letter, ih]

/-- The name of the plugin is put in for `$plugin`, and all else is left. -/
theorem first_step (p : Placeholders) (text : List Char) :
    Text.replaceChars pluginWord p.plugin.toList 0 text
      = unmark rootWord ((pieces 0 text).flatMap p.mark) := by
  induction text using pieces_induction with
  | nil => rfl
  | plugin r ih =>
      rw [Text.replaceChars_occurrence (by decide), pieces_plugin, List.flatMap_cons, mark,
        unmark_append, unmark_letters, ih]
  | root r ih =>
      have hkept : Text.replaceChars pluginWord p.plugin.toList 0 (rootWord ++ r)
          = rootWord ++ Text.replaceChars pluginWord p.plugin.toList 0 r := by
        simp [rootWord, pluginWord, Text.replaceChars_letter]
      rw [hkept, pieces_root, List.flatMap_cons, mark, unmark_append, ih]
      rfl
  | letter c r hplugin hroot ih =>
      rw [Text.replaceChars_letter _ hplugin, pieces_letter hplugin hroot, List.flatMap_cons, mark,
        unmark_append, ih]
      rfl

/-- To fill in at once is to put the root at the marks alone. -/
theorem substitute_eq (p : Placeholders) (text : String) :
    p.substitute text = String.ofList (unmark p.root.toList (p.marked text)) := by
  have hpieces : ∀ ps : List Piece,
      ps.flatMap p.fill = unmark p.root.toList (ps.flatMap p.mark) := by
    intro ps
    induction ps with
    | nil => rfl
    | cons piece r ih =>
        rw [List.flatMap_cons, List.flatMap_cons, unmark_append, ih]
        cases piece with
        | letter c => rfl
        | plugin => rw [mark, unmark_letters, fill]
        | root => simp [mark, fill, unmark]
  rw [substitute, hpieces, marked]

/-! ## The second step -/

/-- Letters without a dollar sign stand before no mark. -/
theorem letters_of_prefix {word : List Char} (hword : '$' ∉ word) {m : Marks}
    (h : word <+: unmark rootWord m) : word.map some <+: m := by
  induction word generalizing m with
  | nil => exact List.nil_prefix
  | cons x word ih =>
      obtain ⟨hx, hrest⟩ := not_or.mp (mt List.mem_cons.mpr hword)
      cases m with
      | nil => simp at h
      | cons first m =>
          cases first with
          | none =>
              rw [unmark_mark] at h
              exact absurd (List.cons_prefix_cons.mp h).1.symm hx
          | some c =>
              rw [unmark_letter] at h
              obtain ⟨rfl, hprefix⟩ := List.cons_prefix_cons.mp h
              exact List.cons_prefix_cons.mpr ⟨rfl, ih hrest hprefix⟩

theorem not_root_of_letter {c : Char} {m : Marks} (h : ¬ rootMarks <+: some c :: m) :
    ¬ rootWord <+: unmark rootWord (some c :: m) := by
  intro hprefix
  rw [unmark_letter] at hprefix
  obtain ⟨rfl, hrest⟩ := List.cons_prefix_cons.mp hprefix
  exact h (List.cons_prefix_cons.mpr ⟨rfl, letters_of_prefix (by decide) hrest⟩)

/-- Marks and letters as the second step comes upon them: a mark, letters
that read `$root`, or any other letter. -/
theorem marks_induction {P : Marks → Prop} (nil : P []) (mark : ∀ m, P m → P (none :: m))
    (formed : ∀ m, P m → P (rootMarks ++ m))
    (letter : ∀ c m, ¬ rootMarks <+: some c :: m → P m → P (some c :: m)) : ∀ m, P m
  | [] => nil
  | none :: m => mark m (marks_induction nil mark formed letter m)
  | some c :: m => by
      by_cases hformed : rootMarks <+: some c :: m
      · obtain ⟨rest, heq⟩ := hformed
        have hshorter : rest.length < (some c :: m).length := by
          have hlength := congrArg List.length heq
          simp [rootMarks, rootWord] at hlength
          simp
          omega
        rw [← heq]
        exact formed rest (marks_induction nil mark formed letter rest)
      · exact letter c m hformed (marks_induction nil mark formed letter m)
  termination_by m => m.length
  decreasing_by
    · exact Nat.lt_succ_self _
    · exact hshorter
    · exact Nat.lt_succ_self _

/-- What the second step makes of marks and letters. -/
def secondStep (root : List Char) (m : Marks) : List Char :=
  Text.replaceChars rootWord root 0 (unmark rootWord m)

theorem secondStep_mark (root : List Char) (m : Marks) :
    secondStep root (none :: m) = root ++ secondStep root m := by
  rw [secondStep, unmark_mark, Text.replaceChars_occurrence (by decide), secondStep]

theorem secondStep_formed (root : List Char) (m : Marks) :
    secondStep root (rootMarks ++ m) = root ++ secondStep root m := by
  rw [secondStep, unmark_append, rootMarks, unmark_letters,
    Text.replaceChars_occurrence (by decide), secondStep]

theorem secondStep_letter {root : List Char} {c : Char} {m : Marks}
    (h : ¬ rootMarks <+: some c :: m) :
    secondStep root (some c :: m) = c :: secondStep root m := by
  have hnot := not_root_of_letter h
  rw [unmark_letter] at hnot
  rw [secondStep, unmark_letter, Text.replaceChars_letter root hnot, secondStep]

theorem formed_mark_iff {m : Marks} : rootMarks <:+: none :: m ↔ rootMarks <:+: m := by
  rw [List.infix_cons_iff]
  refine or_iff_right ?_
  intro hprefix
  cases (List.cons_prefix_cons.mp hprefix).1

theorem formed_letter_iff {c : Char} {m : Marks} (h : ¬ rootMarks <+: some c :: m) :
    rootMarks <:+: some c :: m ↔ rootMarks <:+: m := by
  rw [List.infix_cons_iff]
  exact or_iff_right h

theorem formed_formed (m : Marks) : rootMarks <:+: rootMarks ++ m :=
  (List.prefix_append ..).isInfix

/-- Where the letters do not read `$root`, the second step puts the root
at the marks alone. -/
theorem secondStep_of_unformed (root : List Char) {m : Marks} (h : ¬ rootMarks <:+: m) :
    secondStep root m = unmark root m := by
  induction m using marks_induction with
  | nil => rfl
  | mark m ih =>
      rw [formed_mark_iff] at h
      rw [secondStep_mark, unmark_mark, ih h]
  | formed m _ => exact absurd (formed_formed m) h
  | letter c m hletter ih =>
      rw [formed_letter_iff hletter] at h
      rw [secondStep_letter hletter, unmark_letter, ih h]

/-- A root that is called `$root` changes nothing anywhere. -/
theorem secondStep_self (m : Marks) : secondStep rootWord m = unmark rootWord m := by
  induction m using marks_induction with
  | nil => rfl
  | mark m ih => rw [secondStep_mark, unmark_mark, ih]
  | formed m ih => rw [secondStep_formed, unmark_append, rootMarks, unmark_letters, ih]
  | letter c m hletter ih => rw [secondStep_letter hletter, unmark_letter, ih]

/-- Wherever the letters read `$root` the second step puts in a root that
was not asked for; the lengths differ by as much each time. -/
theorem length_secondStep (root : List Char) (m : Marks) :
    ∃ times, (secondStep root m).length + times * rootWord.length
        = (unmark root m).length + times * root.length
      ∧ (rootMarks <:+: m → 0 < times) := by
  induction m using marks_induction with
  | nil => exact ⟨0, by simp [secondStep, Text.replaceChars], fun h => absurd h (by decide)⟩
  | mark m ih =>
      obtain ⟨times, hlength, hformed⟩ := ih
      refine ⟨times, ?_, fun h => hformed (formed_mark_iff.mp h)⟩
      rw [secondStep_mark, unmark_mark, List.length_append, List.length_append]
      omega
  | formed m ih =>
      obtain ⟨times, hlength, -⟩ := ih
      refine ⟨times + 1, ?_, fun _ => Nat.succ_pos _⟩
      rw [secondStep_formed, unmark_append, rootMarks, unmark_letters, List.length_append,
        List.length_append, Nat.succ_mul, Nat.succ_mul]
      omega
  | letter c m hletter ih =>
      obtain ⟨times, hlength, hformed⟩ := ih
      refine ⟨times, ?_, fun h => hformed ((formed_letter_iff hletter).mp h)⟩
      rw [secondStep_letter hletter, unmark_letter, List.length_cons, List.length_cons]
      omega

/-- Two roots of one length stand at the same places, so there they are
the same. -/
theorem eq_rootWord_of_formed {root : List Char} (hlength : root.length = rootWord.length)
    {m : Marks} (hformed : rootMarks <:+: m) (heq : secondStep root m = unmark root m) :
    root = rootWord := by
  induction m using marks_induction with
  | nil => exact absurd hformed (by decide)
  | mark m ih =>
      rw [secondStep_mark, unmark_mark] at heq
      exact ih (formed_mark_iff.mp hformed) (List.append_cancel_left heq)
  | formed m _ =>
      rw [secondStep_formed, unmark_append, rootMarks, unmark_letters] at heq
      exact (List.append_inj heq hlength).1
  | letter c m hletter ih =>
      rw [secondStep_letter hletter, unmark_letter] at heq
      exact ih ((formed_letter_iff hletter).mp hformed) (List.cons.inj heq).2

/-- The second step puts the root at the marks alone exactly when the
letters do not read `$root`, or the root does. -/
theorem secondStep_eq_unmark_iff (root : List Char) (m : Marks) :
    secondStep root m = unmark root m ↔ root = rootWord ∨ ¬ rootMarks <:+: m := by
  constructor
  · intro heq
    by_cases hformed : rootMarks <:+: m
    · left
      obtain ⟨times, hlengths, htimes⟩ := length_secondStep root m
      rw [heq] at hlengths
      have hsame : times * rootWord.length = times * root.length := by omega
      have hlength := Nat.eq_of_mul_eq_mul_left (htimes hformed) hsame
      exact eq_rootWord_of_formed hlength.symm hformed heq
    · exact .inr hformed
  · rintro (rfl | hunformed)
    · exact secondStep_self m
    · exact secondStep_of_unformed root hunformed

/-! ## Both steps -/

theorem expand_eq (p : Placeholders) (text : String) :
    p.expand text = String.ofList (secondStep p.root.toList (p.marked text)) := by
  have hexpand : p.expand text = String.ofList (Text.replaceChars rootWord p.root.toList 0
      (String.ofList (Text.replaceChars pluginWord p.plugin.toList 0 text.toList)).toList) := rfl
  rw [hexpand, String.toList_ofList, first_step, secondStep, marked]

/-- The expectation that says nothing but `sender: $plugin`. -/
def sentByPlugin : ParcelExpectation where
  sender := some "$plugin"
  recipient := none
  type := none
  compression := none
  sequence := none
  group := none
  payloadContains := none
  count := 1

theorem sentByPlugin_accepts_iff {p : Placeholders} {q : Parcel} :
    sentByPlugin.accepts p q = true ↔ p.expand "$plugin" = q.sender := by
  simp [sentByPlugin, ParcelExpectation.accepts, ParcelExpectation.textAgrees, agrees,
    ParcelExpectation.payloadAgrees]

theorem marked_pluginWord (p : Placeholders) : p.marked "$plugin" = p.plugin.toList.map some := by
  have hpieces : pieces 0 "$plugin".toList = [.plugin] := pieces_plugin []
  rw [marked, hpieces]
  simp [mark]

theorem formed_letters_iff (letters : List Char) :
    rootMarks <:+: letters.map some ↔ Text.occursIn rootWord letters = true := by
  rw [Text.occursIn_iff, rootMarks]
  constructor
  · intro h
    obtain ⟨word, hword, heq⟩ := List.infix_map_iff.mp h
    obtain rfl := (List.map_inj_right fun _ _ => Option.some.inj).mp heq
    exact hword
  · intro h
    exact List.IsInfix.map some h

/-- A parcel of a sender, to show what is asked of senders. -/
def parcelFrom (sender : String) : Parcel where
  time := ⟨0, 0⟩
  sender := sender
  recipient := "host"
  type := "file-state"
  compression := .none
  sequence := ⟨1, 0⟩
  group := none
  payload := []

/-- **Placeholders.** A text is read in pieces from left to right. To fill
in the name of the plugin and then the root is to fill in all of its
placeholders at once exactly when nothing reads `$root` in the text with
the name put in but what the text itself has asked for, or when the root
is called `$root`. So `sender: $plugin` asks for the declared name, and
nothing else, exactly when that name does not contain `$root`. -/
theorem expand_eq_substitute_iff (p : Placeholders) :
    (∀ text : String, (pieces 0 text.toList).flatMap written = text.toList)
      ∧ (∀ text, p.expand text = p.substitute text
          ↔ p.root = "$root" ∨ ¬ rootMarks <:+: p.marked text)
      ∧ ((∀ q : Parcel, sentByPlugin.accepts p q = true ↔ q.sender = p.plugin)
          ↔ p.root = "$root" ∨ Text.occurs "$root" p.plugin = false) := by
  have hroot : p.root.toList = rootWord ↔ p.root = "$root" := by
    rw [← rootWord_eq, String.toList_inj]
  have hexpand : ∀ text, p.expand text = p.substitute text
      ↔ p.root = "$root" ∨ ¬ rootMarks <:+: p.marked text := by
    intro text
    rw [expand_eq, substitute_eq, String.ofList_inj, secondStep_eq_unmark_iff, hroot]
  refine ⟨fun text => written_pieces text.toList, hexpand, ?_⟩
  -- The placeholder alone stands for the name, so it is a matter of that name.
  have hname : p.substitute "$plugin" = p.plugin := by
    rw [substitute_eq, marked_pluginWord, unmark_letters, String.ofList_toList]
  have hmatch : (∀ q : Parcel, sentByPlugin.accepts p q = true ↔ q.sender = p.plugin)
      ↔ p.expand "$plugin" = p.plugin := by
    constructor
    · intro h
      exact sentByPlugin_accepts_iff.mp ((h (parcelFrom p.plugin)).mpr rfl)
    · intro h q
      rw [sentByPlugin_accepts_iff, h, eq_comm]
  have hoccurs : rootMarks <:+: p.marked "$plugin" ↔ Text.occurs "$root" p.plugin = true := by
    rw [marked_pluginWord, formed_letters_iff, Text.occurs, rootWord_eq]
  have hplugin := hexpand "$plugin"
  rw [hname] at hplugin
  rw [hmatch, hplugin, hoccurs, Bool.not_eq_true]

/-- A plugin that declares the name `$root`: the parcels that have its name
for their sender are not those that `sender: $plugin` asks for. -/
theorem expand_ne_substitute :
    let p : Placeholders := ⟨"$root", "/ws"⟩
    p.expand "$plugin" = "/ws" ∧ p.substitute "$plugin" = "$root"
      ∧ sentByPlugin.accepts p (parcelFrom "$root") = false
      ∧ sentByPlugin.accepts p (parcelFrom "/ws") = true := by
  intro p
  have hexpand : p.expand "$plugin" = "/ws" := by decide
  refine ⟨hexpand, by decide, ?_, sentByPlugin_accepts_iff.mpr hexpand⟩
  rw [← Bool.not_eq_true, sentByPlugin_accepts_iff, hexpand]
  decide

end Placeholders

end Conformance
