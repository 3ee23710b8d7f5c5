import Conformance.Proofs.Datum.Mappings
import Conformance.Yaml.Value

/-!
# Mappings in YAML documents

A key that comes a second time makes a document ill-formed. So no text
comes twice among the keys of a document that is a mapping
(`distinct_of_parse?`).
-/

namespace Conformance.Yaml

open Datum (Distinct)

theorem distinct_cons {seen : List (Datum × Datum)} (h : Distinct seen) {key : Datum}
    (hnew : ¬ (seen.any fun e => Datum.same key e.1) = true) (v : Datum) :
    Distinct ((key, v) :: seen) := by
  refine List.pairwise_cons.mpr ⟨fun e he k hkey hk => hnew ?_, h⟩
  obtain rfl : key = .text k := hkey
  exact List.any_eq_true.mpr ⟨e, he, Datum.same_text.mpr hk⟩

/-- Entries that are read one after the other have keys that are new. -/
theorem distinct_of_valueEntries {inner : Nat → Node → Option (Datum × Nat)} :
    ∀ {nodes : List (Node × Node)} {seen es : List (Datum × Datum)} {left left' : Nat},
      Distinct seen → valueEntries inner seen left nodes = some (es, left') → Distinct es
  | [], seen, es, left, left', hseen, h => by
      cases h
      exact hseen.of_perm (List.reverse_perm seen).symm
  | (k, v) :: r, seen, es, left, left', hseen, h => by
      rw [valueEntries] at h
      obtain ⟨⟨key, left₁⟩, -, h⟩ := Option.bind_eq_some_iff.mp h
      dsimp only at h
      split at h
      · cases h
      · rename_i hnew
        obtain ⟨⟨v', left₂⟩, -, h⟩ := Option.bind_eq_some_iff.mp h
        exact distinct_of_valueEntries (distinct_cons hseen hnew v') h

theorem withTag_eq_map {p : Properties} {v : Datum} {es : List (Datum × Datum)}
    (h : withTag p v = .map es) : v = .map es := by
  unfold withTag at h
  split at h
  · cases h
  · exact h

theorem plainValue?_ne_map (text : String) (es : List (Datum × Datum)) :
    plainValue? text ≠ some (.map es) := by
  unfold plainValue?
  split
  · simp
  · dsimp only
    split
    · simp
    · simp
    · split <;> simp

/-- A scalar is no mapping. -/
theorem scalarValue?_ne_map (tag : Option String) (style : ScalarStyle) (text : String)
    (es : List (Datum × Datum)) : scalarValue? tag style text ≠ some (.map es) := by
  intro h
  unfold scalarValue? at h
  split at h
  · split at h
    · exact plainValue?_ne_map text es h
    · cases h
  · split at h
    · obtain ⟨b, -, h⟩ := Option.map_eq_some_iff.mp h
      cases h
    · split at h
      · obtain ⟨n, -, h⟩ := Option.bind_eq_some_iff.mp h
        obtain ⟨n, -, h⟩ := Option.map_eq_some_iff.mp h
        cases h
      · split at h
        · obtain ⟨x, -, h⟩ := Option.map_eq_some_iff.mp h
          cases h
        · split at h
          · split at h <;> cases h
          · cases h

theorem distinct_of_valueOf {inner? : Option (Nat → Node → Option (Datum × Nat))}
    {left left' : Nat} {n : Node} {es : List (Datum × Datum)}
    (h : valueOf inner? left n = some (.map es, left')) : Distinct es := by
  cases n with
  | «alias» name => cases h
  | scalar p style text =>
      obtain ⟨v, hv, heq⟩ := Option.map_eq_some_iff.mp h
      obtain ⟨hmap, -⟩ := Prod.mk.inj heq
      rw [withTag_eq_map hmap] at hv
      exact absurd hv (scalarValue?_ne_map _ _ _ es)
  | sequence p items =>
      obtain ⟨inner, -, h⟩ := Option.bind_eq_some_iff.mp h
      obtain ⟨⟨vs, left₁⟩, -, h⟩ := Option.bind_eq_some_iff.mp h
      obtain ⟨hmap, -⟩ := Prod.mk.inj (Option.some.inj h)
      cases withTag_eq_map hmap
  | mapping p entries =>
      obtain ⟨inner, -, h⟩ := Option.bind_eq_some_iff.mp h
      obtain ⟨⟨vs, left₁⟩, hentries, h⟩ := Option.bind_eq_some_iff.mp h
      obtain ⟨hmap, -⟩ := Prod.mk.inj (Option.some.inj h)
      cases withTag_eq_map hmap
      exact distinct_of_valueEntries List.Pairwise.nil hentries

theorem distinct_of_value {anchors : List (String × Node)} {depth left left' : Nat} {n : Node}
    {es : List (Datum × Datum)} (h : value anchors depth left n = some (.map es, left')) :
    Distinct es := by
  cases depth with
  | zero =>
      obtain ⟨⟨n', left₁⟩, -, h⟩ := Option.bind_eq_some_iff.mp h
      exact distinct_of_valueOf h
  | succ depth =>
      obtain ⟨⟨n', left₁⟩, -, h⟩ := Option.bind_eq_some_iff.mp h
      exact distinct_of_valueOf h

/-- **Keys.** No text comes twice among the keys of a document. -/
theorem distinct_of_parse? {text : String} {es : List (Datum × Datum)}
    (h : parse? text = some (.map es)) : Distinct es := by
  obtain ⟨ts, -, h⟩ := Option.bind_eq_some_iff.mp h
  obtain ⟨node, -, h⟩ := Option.bind_eq_some_iff.mp h
  cases node with
  | none => cases h
  | some root =>
      obtain ⟨⟨root, names⟩, -, h⟩ := Option.bind_eq_some_iff.mp h
      obtain ⟨⟨v, left⟩, hvalue, h⟩ := Option.bind_eq_some_iff.mp h
      cases h
      exact distinct_of_value hvalue

end Conformance.Yaml
