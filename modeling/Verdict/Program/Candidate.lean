import Verdict.Program.Basic

/-!
# Programs from unchecked parts

A host that assembles a program by hand may put anything under a name. `Program.ofCandidates` accepts
exactly what makes a program: nodes as declarations, relations as computed entries. The declarations
are checked before the computed entries, each list in order, and the first fault is reported.
-/

namespace Verdict

/-- What a host puts under a name. -/
inductive Candidate (α : Type := Empty) where
  | node (n : Node α)
  /-- Something else, of which only its kind is known. -/
  | other (kind : String)

/-- Why the parts do not make a program. -/
inductive CandidateError where
  /-- A declaration that is no node. -/
  | notNode (name kind : String)
  /-- A computed entry that is no relation. -/
  | notRelation (name kind : String)
deriving DecidableEq, Repr

def CandidateError.message : CandidateError → String
  | notNode name kind => s!"Node '{name}' must be a Relation or Predicate, got {kind}"
  | notRelation name kind => s!"Computed entry '{name}' must be a Relation, got {kind}"

variable {α : Type}

namespace Candidate

/-- A candidate for a declaration. -/
def node? (name : String) : Candidate α → Except CandidateError (Node α)
  | node n => .ok n
  | other kind => .error (.notNode name kind)

/-- A candidate for a computed entry. -/
def relation? (name : String) : Candidate α → Except CandidateError (Relation α)
  | node (.relation r) => .ok r
  | node (.predicate _) => .error (.notRelation name "Predicate")
  | other kind => .error (.notRelation name kind)

/-- Checks every entry of a table of candidates, in order. -/
def checkAll {β : Type} (check : String → Candidate α → Except CandidateError β)
    (t : Table String (Candidate α)) : Except CandidateError (Table String β) := do
  let entries ← t.entries.mapM fun (name, c) => (check name c).map (name, ·)
  return .ofList entries

end Candidate

/-- A store of the given entries, if all of them are relations. -/
def Store.ofCandidates (computed : List (String × Candidate α)) : Except CandidateError (Store α) :=
  Candidate.checkAll Candidate.relation? (.ofList computed)

/-- The program of the given parts, if they make one. -/
def Program.ofCandidates (nodes computed : List (String × Candidate α)) :
    Except CandidateError (Program α) := do
  let nodes ← Candidate.checkAll Candidate.node? (.ofList nodes)
  let computed ← Store.ofCandidates computed
  return { nodes, computed }

end Verdict
