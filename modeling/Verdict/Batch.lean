import Verdict.Outcome

/-!
# Checking many documents

The whole way from files to the printed outcome: the files that a pattern selects are read one after
another, in the order of their paths, as outlines; the documents become one program, which is checked
and evaluated under a cap; and the result is printed with what was computed.

A failure on the way is passed on, and most are noted as well: those of the file system, of the form
of a document, and of the program. Not noted are a bad cap, a bad number in a dependency, a path with a
null character and bytes that are no text; nor is a bad pattern, or what goes wrong while paths are
selected.
-/

namespace Verdict

/-- The checking program of the documents, evaluated under a cap. -/
def Document.evaluateAll (docs : List Document) (cap : Int) : Outcome Error Program := do
  .note (Document.notices docs)
  let p : Program := .ofDocuments docs
  .ofExcept (p.validate.mapError .defect)
  let cap ← .ofExcept ((Cap.ofInt cap).mapError .cap)
  let (q, _) ← ({ cap } : Evaluator).evaluateNoting p
  return q

namespace Error

/-- Whether a batch notes that this error ended it. -/
def isNoted {α : Type} : Error α → Bool
  | source _ | defect _ | evaluation (.capReached _) | evaluation (.unify (.arity _ _)) => true
  | document (.issues _) => true
  | file .missing | file .isDirectory | file .notDirectory | file .tooLong => true
  | _ => false

end Error

namespace Batch

/-- The document in a file. -/
def loadFile (t : Tree) (p : Path) : Except Error Document := do
  let text ← (t.readText p).mapError .file
  (Document.ofOutline text p.name).mapError .document

/-- The documents in files, in order. -/
def load (t : Tree) (paths : List Path) : Except Error (List Document) :=
  paths.mapM (loadFile t)

/-- Notes an error that ended a batch, if it is one to note. -/
def noteFailure {β : Type} (o : Outcome Error β) : Outcome Error β :=
  match o.result with
  | .error e => { o with notices := o.notices ++ if e.isNoted then [.batchFailed] else [] }
  | .ok _ => o

/-- Reads and evaluates the documents in files. -/
def evaluateFiles (t : Tree) (paths : List Path) (cap : Int) : Outcome Error Program :=
  -- Notices that came before the failure stay in front of it.
  noteFailure do
    let docs ← .ofExcept (load t paths)
    Document.evaluateAll docs cap

/-- The pattern for the files to check, unless another is asked for. -/
def standardPattern : String := "**/*.logic.md"

/-- Checks the documents below a directory, in the files that a pattern selects. -/
def run (t : Tree) (root : Path) (pattern : String) (cap : Int) : Outcome Error String := do
  let pattern ← .ofExcept ((Pattern.ofString pattern).mapError .pattern)
  let paths ← .ofExcept ((t.select root pattern).mapError .file)
  let p ← evaluateFiles t paths cap
  return p.render true

end Batch

end Verdict
