/-!
# Occurrences of one text in another

Replacing a text wherever it occurs, found from left to right and without overlaps, and asking
whether it occurs at all. A text that was put in is not looked at again.
-/

namespace Conformance.Text

/-- Replaces every occurrence of a pattern of at least one character. `skip` counts the characters
of an occurrence that are still to be passed over. -/
def replaceChars (pattern new : List Char) : Nat → List Char → List Char
  | _, [] => []
  | skip + 1, _ :: r => replaceChars pattern new skip r
  | 0, c :: r =>
    if pattern.isPrefixOf (c :: r) then new ++ replaceChars pattern new (pattern.length - 1) r
    else c :: replaceChars pattern new 0 r

def replace (pattern new s : String) : String :=
  String.ofList (replaceChars pattern.toList new.toList 0 s.toList)

/-- Whether a text occurs in a list of characters. -/
def occursIn (needle : List Char) : List Char → Bool
  | [] => needle.isEmpty
  | c :: r => needle.isPrefixOf (c :: r) || occursIn needle r

def occurs (needle s : String) : Bool := occursIn needle.toList s.toList

end Conformance.Text
