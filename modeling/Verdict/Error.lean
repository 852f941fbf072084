import Verdict.Document.Outline
import Verdict.Document.Status
import Verdict.Evaluation.Evaluator
import Verdict.Files.Pattern
import Verdict.Program.Candidate
import Verdict.Program.Validity
import Verdict.Syntax.Printer
import Verdict.Syntax.Source

/-!
# Errors

Everything that the library refuses, under one roof, for callers that do several things in a row. Each
part of the library has its own, smaller type of errors; `Error` only collects them.
-/

namespace Verdict

/-- What can be wrong with what the library is asked to do. -/
inductive Error (α : Type := Empty) where
  | source (e : SourceError)
  | candidate (e : CandidateError)
  | defect (e : Defect)
  | cap (e : CapError)
  | evaluation (e : EvaluationError α)
  | print (e : PrintError α)
  | document (e : DocumentError)
  | status (e : StatusError)
  /-- A program does not declare a name. -/
  | undeclared (name : String)
  | pattern (e : PatternError)
  | file (e : FileError)
deriving DecidableEq

/-- The message of an error. Issues with the data of a document have one each, and most of
what goes wrong with a file is left to the file system to describe. -/
def Error.message? {α : Type} [Foreign α] : Error α → Option String
  | source e => e.message
  | candidate e => e.message
  | defect e => e.message
  | cap e => e.message
  | evaluation e => e.message
  | print e => e.message
  | document (.numeral e) => e.message
  | document (.issues _) => none
  | status e => e.message
  | undeclared name => Text.quote name
  | pattern e => e.message
  | file e => e.message?

end Verdict
