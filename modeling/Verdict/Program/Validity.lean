import Verdict.Program.Basic

/-!
# Validity

The static check before evaluation: every clause names a declared node, and every head variable
occurs somewhere in the body. An occurrence inside a negated clause counts, which is weaker than the
usual range restriction: such a rule is accepted and derives nothing.

`Program.defect?` finds the first fault in reading order; a program is valid when there is none.
-/

namespace Verdict

/-- Why a program must not be evaluated. -/
inductive Defect where
  /-- A clause of the predicate names a relation that is not declared. -/
  | unknownRelation (predicate relation : String)
  /-- A head variable of the predicate does not occur in the body of one of its rules. -/
  | unboundHead (predicate name : String)
deriving DecidableEq, Repr

def Defect.message : Defect → String
  | unknownRelation predicate relation =>
    s!"Unknown relation '{relation}' in predicate '{predicate}'"
  | unboundHead predicate name =>
    s!"Head variable '{name}' is not properly bound in predicate '{predicate}'"

variable {α : Type}

/-- The first fault of one rule: its clauses are looked at before the head. -/
def Rule.defect? (declared : String → Bool) (name : String) (args : List String) (r : Rule α) :
    Option Defect :=
  match r.find? fun c => !declared c.relation with
  | some c => some (.unknownRelation name c.relation)
  | none =>
    let vars := Rule.vars r
    (args.find? fun x => x ∉ vars).map (.unboundHead name)

/-- The first fault of a predicate, rule by rule. -/
def Predicate.defect? (declared : String → Bool) (name : String) (p : Predicate α) :
    Option Defect :=
  p.rules.findSome? (Rule.defect? declared name p.args)

namespace Program

/-- The first fault of a program, predicate by predicate. -/
def defect? (p : Program α) : Option Defect :=
  p.predicates.findSome? fun (name, pred) => pred.defect? p.nodes.contains name

/-- A program is valid when it has no fault. -/
def Valid (p : Program α) : Prop := p.defect? = none

instance (p : Program α) : Decidable p.Valid :=
  inferInstanceAs (Decidable (p.defect? = none))

/-- Reports the first fault. -/
def validate (p : Program α) : Except Defect Unit :=
  match p.defect? with
  | some d => .error d
  | none => .ok ()

end Program

end Verdict
