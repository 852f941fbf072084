import Verdict.Text.Split

/-!
# Paths

A path is a row of steps, from the root or from the directory where it is used. Two steps are special
when a path is written: an empty one and a single dot stand for the directory itself and do not count.
A pair of dots is kept, since it means a step to the parent directory.

No file system takes names and paths of any length; the limits here are those in bytes that are common.
-/

namespace Verdict

/-- A way to a file or directory. -/
structure Path where
  /-- Whether the steps start at the root. -/
  fromRoot : Bool
  steps : List String
deriving DecidableEq, Repr

namespace Path

def up : String := ".."

/-- The path that is written so, with slashes between its steps and before the first one if it starts
at the root. -/
def ofString (s : String) : Path where
  fromRoot := s.toList.head? = some '/'
  steps := ((Text.split '/' s.toList).map String.ofList).filter fun c => c ≠ "" ∧ c ≠ "."

/-- The last step, if there is one. -/
def name (p : Path) : String := p.steps.getLast?.getD ""

/-- The path as it is meant in a directory. -/
def within (p directory : Path) : Path :=
  if p.fromRoot then p else { directory with steps := directory.steps ++ p.steps }

/-- The path with one step more. -/
def step (p : Path) (s : String) : Path := { p with steps := p.steps ++ [s] }

/-! ## Limits -/

/-- How many bytes a path from the root takes when it is written. -/
def byteSize (p : Path) : Nat :=
  p.steps.foldl (fun n s => n + 1 + s.utf8ByteSize) 0

def maxByteSize : Nat := 4095

/-- How many bytes a single step may take. -/
def maxNameSize : Nat := 255

/-! ## Order -/

/-- Whether a row of steps comes before another or is the same. -/
def stepsPrecede : List String → List String → Bool
  | [], _ => true
  | _ :: _, [] => false
  | a :: p, b :: q => a < b || (a = b && stepsPrecede p q)

/-- Whether a path comes before another or is the same: the first step that differs decides, and a
directory comes before what is below it. -/
def precedes (p q : Path) : Bool := stepsPrecede p.steps q.steps

end Path

end Verdict
