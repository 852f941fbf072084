import Verdict.Evaluation.Binding

/-!
# What a rule derives

A rule body is joined from left to right. A positive clause extends each binding by every row that it
matches; a negated clause keeps a binding when no row matches (negation as failure). A clause whose
name resolves to nothing ends the rule without a result, negated or not: a predicate that has never
derived a fact blocks the rules that deny it.

Everything here is given the store as it stands and changes nothing. The order of the bindings is
that of the rows, the earlier clause varying slowest.
-/

namespace Verdict

variable {α : Type} [DecidableEq α]

namespace Binding

/-- The extensions of the binding by the rows that match, in the order of the rows. -/
def extensions (b : Binding α) (pattern : List (Term α)) :
    List (Fact α) → Except (UnifyError α) (List (Binding α))
  | [] => .ok []
  | row :: rows => do
    let found ← b.unify pattern row
    let rest ← b.extensions pattern rows
    return found.toList ++ rest

/-- Whether some row matches. The rows after the first match are not looked at. -/
def hasMatch (b : Binding α) (pattern : List (Term α)) :
    List (Fact α) → Except (UnifyError α) Bool
  | [] => .ok false
  | row :: rows => do
    match ← b.unify pattern row with
    | some _ => return true
    | none => b.hasMatch pattern rows

end Binding

namespace Clause

/-- The bindings that a clause makes of one: its extensions, or itself when nothing may match and
nothing does. -/
def step (c : Clause α) (facts : List (Fact α)) (b : Binding α) :
    Except (UnifyError α) (List (Binding α)) :=
  if c.negated then do
    return if ← b.hasMatch c.terms facts then [] else [b]
  else b.extensions c.terms facts

def join (c : Clause α) (facts : List (Fact α)) :
    List (Binding α) → Except (UnifyError α) (List (Binding α))
  | [] => .ok []
  | b :: bs => do
    let first ← c.step facts b
    let rest ← c.join facts bs
    return first ++ rest

end Clause

namespace Program

/-- Joins the clauses of a rule, starting from the given bindings. -/
def solveFrom (p : Program α) (store : Store α) :
    Rule α → List (Binding α) → Except (UnifyError α) (List (Binding α))
  | [], bs => .ok bs
  | c :: rule, bs =>
    match p.resolve? store c.relation with
    -- Not even a denial holds of a name that nothing is known about.
    | none => .ok []
    | some r => do p.solveFrom store rule (← c.join r.facts bs)

/-- The bindings that satisfy every clause of a rule. -/
def solve (p : Program α) (store : Store α) (rule : Rule α) :
    Except (UnifyError α) (List (Binding α)) :=
  p.solveFrom store rule [∅]

/-- The head facts that one rule derives. A binding that leaves a head variable open derives none. -/
def deriveRule (p : Program α) (store : Store α) (head : List String) (rule : Rule α) :
    Except (UnifyError α) (List (Fact α)) := do
  return (← p.solve store rule).filterMap fun b => b.project head

def deriveRules (p : Program α) (store : Store α) (head : List String) :
    List (Rule α) → Except (UnifyError α) (List (Fact α))
  | [] => .ok []
  | rule :: rules => do
    let first ← p.deriveRule store head rule
    let rest ← p.deriveRules store head rules
    return first ++ rest

/-- The relation that a predicate's rules derive from the store. -/
def derive (p : Program α) (store : Store α) (pred : Predicate α) :
    Except (UnifyError α) (Relation α) := do
  return .ofRows (← p.deriveRules store pred.args pred.rules)

end Program

end Verdict
