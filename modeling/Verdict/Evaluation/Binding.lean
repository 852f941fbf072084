import Verdict.Program.Basic

/-!
# Bindings

There are no function symbols, so unification is matching: a clause pattern is laid over a row,
position by position, and the binding grows by what the variables have to stand for. `unify` answers
with the extended binding or with `none` when the row does not match; `project` reads a head off a
binding.

Matching can go wrong in two ways. Pattern and row of different lengths are reported before anything
is compared. A foreign value in the pattern is reported when its position is reached, so a mismatch
further left hides it.
-/

namespace Verdict

variable {α : Type}

/-- What the variables stand for, in the order in which they were bound. -/
abbrev Binding (α : Type := Empty) := Table String (Term α)

/-- Why a pattern cannot be compared with a row. -/
inductive UnifyError (α : Type := Empty) where
  /-- They differ in length. -/
  | arity (pattern row : Nat)
  /-- The pattern holds a value that is no term. -/
  | foreign (value : α)
deriving DecidableEq, Repr

def UnifyError.message [Foreign α] : UnifyError α → String
  | arity pattern row => s!"Pattern arity {pattern} does not match fact arity {row}"
  | foreign value => "Unknown term in pattern: " ++ Foreign.shown value

namespace Binding

variable [DecidableEq α]

/-- Matches what is left of a pattern against what is left of a row of the same length. -/
def unifyFrom (b : Binding α) : List (Term α) → Fact α → Except (UnifyError α) (Option (Binding α))
  | t :: pattern, v :: row =>
    match t with
    | .var x =>
      match b.get? x with
      | none => unifyFrom (b.insert x v) pattern row
      | some bound => if bound = v then unifyFrom b pattern row else .ok none
    | .foreign value => .error (.foreign value)
    | .text _ | .truth _ => if t = v then unifyFrom b pattern row else .ok none
  | _, _ => .ok (some b)

/-- The least extension of the binding under which the pattern becomes the row, if there is one. -/
def unify (b : Binding α) (pattern : List (Term α)) (row : Fact α) :
    Except (UnifyError α) (Option (Binding α)) :=
  if pattern.length = row.length then b.unifyFrom pattern row
  else .error (.arity pattern.length row.length)

omit [DecidableEq α] in
/-- The head under the binding, or `none` if one of its variables is unbound. -/
def project (b : Binding α) (head : List String) : Option (Fact α) :=
  head.mapM b.get?

end Binding

end Verdict
