import Verdict.Evaluation.Run

/-!
# Evaluators

An evaluator evaluates programs to a fixpoint under a cap, and remembers how many rounds the last
evaluation that came to an end took. An evaluation that fails leaves this number as it was.
-/

namespace Verdict

/-- Why an evaluation has no result. -/
inductive EvaluationError (α : Type := Empty) where
  /-- A clause cannot be compared with a fact. -/
  | unify (e : UnifyError α)
  /-- There was no fixpoint within the cap. -/
  | capReached (rounds : Nat)
deriving DecidableEq, Repr

variable {α : Type}

def EvaluationError.message [Foreign α] : EvaluationError α → String
  | unify e => e.message
  | capReached rounds =>
    s!"Exceeded maximum number of iterations ({rounds}), possible infinite loop"

/-- The error that an ending amounts to, under the given cap. -/
def Ending.error? (cap : Cap) : Ending α → Option (EvaluationError α)
  | settled => none
  | capReached => some (.capReached cap.rounds)
  | failed e => some (.unify e)

/-- A cap, and the number of rounds of the last evaluation that settled. -/
structure Evaluator where
  cap : Cap := .standard
  /-- How many rounds the last completed evaluation took. -/
  roundsRun : Nat := 0

/-- Evaluates a program: the same nodes with the fixpoint as its store. -/
def Evaluator.evaluate [DecidableEq α] (e : Evaluator) (p : Program α) :
    Except (EvaluationError α) (Program α) × Evaluator :=
  let r := p.run e.cap.rounds p.computed
  match r.ending.error? e.cap with
  -- A failed evaluation leaves no trace.
  | some err => (.error err, e)
  | none =>
    (.ok (p.withComputed (r.snapshots.getLast?.getD p.computed)),
      { e with roundsRun := r.snapshots.length })

end Verdict
