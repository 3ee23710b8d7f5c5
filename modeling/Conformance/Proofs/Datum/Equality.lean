import Conformance.Datum

/-!
# Equal document values

Whether two document values are one and the same is decided by going
through both. This is not the question whether they are the same key
(`Datum.same`), which takes mappings without their order and the zeros of
binary64 for one value.
-/

namespace Conformance.Datum

mutual

/-- Decides whether two values are equal. -/
def decEq : (d e : Datum) → Decidable (d = e)
  | .null, e =>
    match e with
    | .null => isTrue rfl
    | .bool _ | .number _ | .text _ | .list _ | .map _ | .tagged _ _ => isFalse nofun
  | .bool a, e =>
    match e with
    | .bool b => decidable_of_iff (a = b) (by simp)
    | .null | .number _ | .text _ | .list _ | .map _ | .tagged _ _ => isFalse nofun
  | .number a, e =>
    match e with
    | .number b => decidable_of_iff (a = b) (by simp)
    | .null | .bool _ | .text _ | .list _ | .map _ | .tagged _ _ => isFalse nofun
  | .text a, e =>
    match e with
    | .text b => decidable_of_iff (a = b) (by simp)
    | .null | .bool _ | .number _ | .list _ | .map _ | .tagged _ _ => isFalse nofun
  | .list xs, e =>
    match e with
    | .list ys =>
      have := decEqItems xs ys
      decidable_of_iff (xs = ys) (by simp)
    | .null | .bool _ | .number _ | .text _ | .map _ | .tagged _ _ => isFalse nofun
  | .map es, e =>
    match e with
    | .map fs =>
      have := decEqEntries es fs
      decidable_of_iff (es = fs) (by simp)
    | .null | .bool _ | .number _ | .text _ | .list _ | .tagged _ _ => isFalse nofun
  | .tagged t v, e =>
    match e with
    | .tagged u w =>
      have := decEq v w
      decidable_of_iff (t = u ∧ v = w) (by simp)
    | .null | .bool _ | .number _ | .text _ | .list _ | .map _ => isFalse nofun

/-- Decides whether two lists are equal. -/
def decEqItems : (xs ys : List Datum) → Decidable (xs = ys)
  | [], ys =>
    match ys with
    | [] => isTrue rfl
    | _ :: _ => isFalse nofun
  | x :: xs, ys =>
    match ys with
    | [] => isFalse nofun
    | y :: ys =>
      have := decEq x y
      have := decEqItems xs ys
      decidable_of_iff (x = y ∧ xs = ys) (by simp)

/-- Decides whether two mappings are equal. -/
def decEqEntries : (es fs : List (Datum × Datum)) → Decidable (es = fs)
  | [], fs =>
    match fs with
    | [] => isTrue rfl
    | _ :: _ => isFalse nofun
  | (k, v) :: es, fs =>
    match fs with
    | [] => isFalse nofun
    | (k', v') :: fs =>
      have := decEq k k'
      have := decEq v v'
      have := decEqEntries es fs
      decidable_of_iff ((k = k' ∧ v = v') ∧ es = fs) (by simp)

end

instance : DecidableEq Datum := decEq

end Conformance.Datum
