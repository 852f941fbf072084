import Verdict.Error
import Verdict.Notice

/-!
# Outcomes

An `Outcome` is what a row of actions comes to: a value or an error, and the notices that were given
on the way. An error ends the row, and the notices given before it stay.
-/

namespace Verdict

/-- A value or an error, with the notices given on the way. -/
structure Outcome (ε β : Type) where
  result : Except ε β
  notices : List Notice := []

namespace Outcome

variable {ε ε' β γ : Type}

/-- What a computation without notices comes to. -/
def ofExcept (r : Except ε β) : Outcome ε β where
  result := r

/-- Gives notices. -/
def note (l : List Notice) : Outcome ε Unit where
  result := .ok ()
  notices := l

/-- Goes on with the value, if there is one. -/
def bind (o : Outcome ε β) (f : β → Outcome ε γ) : Outcome ε γ :=
  match o.result with
  | .ok b =>
    let next := f b
    { result := next.result, notices := o.notices ++ next.notices }
  | .error e => { result := .error e, notices := o.notices }

instance : Monad (Outcome ε) where
  pure b := { result := .ok b }
  bind := bind

instance : MonadLift (Except ε) (Outcome ε) where
  monadLift := ofExcept

/-- Changes the error. -/
def mapError (f : ε → ε') (o : Outcome ε β) : Outcome ε' β where
  result := o.result.mapError f
  notices := o.notices

end Outcome

variable {α : Type}

/-- What an ending is worth a notice. -/
def Ending.notices (cap : Cap) : Ending α → List Notice
  | capReached => [.capReached cap.rounds]
  | settled | failed _ => []

/-- What an error of evaluation is worth a notice. -/
def EvaluationError.notices : EvaluationError α → List Notice
  | capReached rounds => [.capReached rounds]
  | unify _ => []

/-- Evaluates a program; running into the cap gives a notice. -/
def Evaluator.evaluateNoting [DecidableEq α] (e : Evaluator) (p : Program α) :
    Outcome (Error α) (Program α × Evaluator) :=
  match e.evaluate p with
  | (.ok q, e) => { result := .ok (q, e) }
  | (.error err, _) => { result := .error (.evaluation err), notices := err.notices }

end Verdict
