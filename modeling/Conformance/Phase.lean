/-!
# Phases of a run

A run reads its script, prepares the workspace and the plugin, lets the plugin react, and then holds
what it expects against what it finds.
-/

namespace Conformance

/-- How far a run has come. Any phase may be followed by `failed`. -/
inductive Phase where
  | parse
  | before
  | trigger
  | after
  | done
  | failed
  deriving Repr, DecidableEq

def Phase.name : Phase → String
  | .parse => "parse"
  | .before => "before"
  | .trigger => "trigger"
  | .after => "after"
  | .done => "done"
  | .failed => "failed"

end Conformance
