import Conformance.Text.Substitute

/-!
# Placeholders

The texts of an expectation may name two things that are known only when a script runs: the plugin,
by the name it declares, and the root of the workspace.
-/

namespace Conformance

/-- What the placeholders of a run stand for. -/
structure Placeholders where
  /-- The name that the plugin declares, for `$plugin`. -/
  plugin : String
  /-- The root of the workspace, for `$root`. -/
  root : String
  deriving Repr, DecidableEq

/-- The text with the plugin's name put in, and then the root. -/
def Placeholders.expand (p : Placeholders) (text : String) : String :=
  Text.replace "$root" p.root (Text.replace "$plugin" p.plugin text)

end Conformance
