import Verdict.Program.Clause

/-!
# Alignment of rules

All rules of a predicate share one head. A rule that is written with other variables is renamed to
the declared head: head variables position by position, and any other body variable only when its
name is already taken by the head, by a number behind it. This works exactly when the two heads have
the same length and repeat their variables at the same places; then the renaming is one to one, so
the rule derives what it did before.
-/

namespace Verdict

/-- Why a rule cannot take over the declared head. -/
inductive AlignmentError where
  /-- The heads differ in length. -/
  | arity (head declared : Nat)
  /-- A variable of the rule's head stands where the declared head has different ones. -/
  | repeats (name : String)
  /-- The declared head repeats a variable where the rule's head has different ones. -/
  | merges (declared : List String)
deriving DecidableEq, Repr

variable {α : Type}

def Term.rename (f : String → String) : Term α → Term α
  | .var x => .var (f x)
  | t => t

def Clause.rename (f : String → String) (c : Clause α) : Clause α :=
  { c with terms := c.terms.map (Term.rename f) }

namespace Rule

/-- What becomes of each variable of a rule. -/
abbrev Renaming := List (String × String)

namespace Renaming

/-- The new name of a variable; one that the renaming does not mention stays. -/
def apply (m : Renaming) (x : String) : String :=
  (m.lookup x).getD x

/-- Sends the variables of a head to the declared ones, position by position. -/
def ofHeads (m : Renaming) : List (String × String) → Except AlignmentError Renaming
  | [] => .ok m
  | (x, y) :: rest =>
    match m.lookup x with
    | none => ofHeads (m ++ [(x, y)]) rest
    | some y' => if y' = y then ofHeads m rest else .error (.repeats x)

/-- The first of `x_1`, `x_2`, … that is not in use. Among one more candidate than there are names in
use, one is free. -/
def fresh (used : List String) (x : String) : String :=
  let candidates := (List.range' 1 (used.length + 1)).map fun n => s!"{x}_{n}"
  (candidates.find? fun y => y ∉ used).getD x

/-- Adds the remaining variables of a body: one whose name the head has taken gets a fresh name, the
others stay. -/
def addBody (taken : List String) (used : List String) (m : Renaming) : List String → Renaming
  | [] => m
  | x :: xs =>
    if (m.lookup x).isSome then addBody taken used m xs
    else if x ∈ taken then
      let y := fresh used x
      addBody taken (y :: used) (m ++ [(x, y)]) xs
    else addBody taken used (m ++ [(x, x)]) xs

end Renaming

/-- The rule with the given head and body, renamed to the declared head. -/
def align (declared head : List String) (body : Rule α) : Except AlignmentError (Rule α) :=
  if head = declared then .ok body
  else if head.length ≠ declared.length then .error (.arity head.length declared.length)
  else do
    let heads ← Renaming.ofHeads [] (head.zip declared)
    let taken := heads.map Prod.snd
    -- Two variables of the head must not become one.
    if ¬ taken.Nodup then throw (.merges declared)
    let vars := Rule.vars body
    let names := Renaming.addBody taken (taken ++ vars) heads vars
    return body.map (Clause.rename names.apply)

end Rule

end Verdict
