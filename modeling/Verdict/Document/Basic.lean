/-!
# Documents

A document records assumptions, each with a truth value, and inferences, each with what it depends
on: an assumption or another inference of the same document, or a whole other document. Items and
dependencies are named by ids; an id is a number or a text, and two ids that are written alike are
taken for the same once a program is made of the document.
-/

namespace Verdict

/-- What names an item or a dependency. -/
inductive Id where
  | number (n : Int)
  | text (s : String)
deriving DecidableEq, Repr

/-- The written form of an id, by which it is compared. -/
def Id.key : Id → String
  | number n => toString n
  | text s => s

/-- A statement that is taken to hold or not to hold. -/
structure Assumption where
  id : Id
  value : Bool
  text : String := ""
deriving DecidableEq, Repr

structure Inference where
  id : Id
  text : String := ""
  /-- What it is drawn from: items of the same document, or documents. -/
  dependsOn : List Id := []
deriving DecidableEq, Repr

/-- A named collection of assumptions and inferences. -/
structure Document where
  name : String
  imports : List String := []
  assumptions : List Assumption := []
  inferences : List Inference := []
deriving DecidableEq, Repr

/-- The keys of the items of a document, each once. -/
def Document.localKeys (d : Document) : List String :=
  (d.assumptions.map (·.id.key) ++ d.inferences.map (·.id.key)).eraseDups

end Verdict
