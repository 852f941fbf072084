/-!
# Notices

What the library has to say beside its results: things in the input that look like mistakes, and
failures that a caller may want to find in a log as well.
-/

namespace Verdict

/-- A remark for the log. -/
inductive Notice where
  /-- An inference depends on something that neither its document nor the list of documents has. -/
  | unknownDependency (inference document key : String)
  /-- A document imports one that is not there. -/
  | unknownImport (document name : String)
  /-- An evaluation reached its cap before a fixpoint. -/
  | capReached (rounds : Nat)
  /-- A batch came to nothing. -/
  | batchFailed
deriving DecidableEq, Repr

/-- The text of a remark. -/
def Notice.text : Notice → String
  | unknownDependency inference document key =>
    s!"Inference {inference} in document '{document}' depends on unknown '{key}'"
  | unknownImport document name => s!"Document '{document}' imports unknown document '{name}'"
  | capReached rounds => s!"Max iterations ({rounds}) reached without a fixpoint"
  | batchFailed => "Markdown pipeline failed"

end Verdict
