import Verdict.Program.Term

/-!
# Clauses and rules

A clause is one conjunct of a rule body: a name, an argument pattern, and whether it is negated. A
rule is the ordered list of its clauses; the head is kept once for all rules of a predicate, in
`Verdict.Predicate`.
-/

namespace Verdict

/-- One conjunct of a rule body. -/
structure Clause (α : Type := Empty) where
  /-- The name of the relation or predicate that is matched. -/
  relation : String
  terms : List (Term α) := []
  /-- Whether the clause asks that nothing match. -/
  negated : Bool := false
deriving DecidableEq, Repr

/-- A rule body: an ordered conjunction of clauses. -/
abbrev Rule (α : Type := Empty) := List (Clause α)

variable {α : Type}

namespace Clause

def arity (c : Clause α) : Nat := c.terms.length

/-- The variables of a clause, in order of first occurrence. -/
def vars (c : Clause α) : List String := Term.vars c.terms

/-- The clause in running text, with its terms unquoted. -/
def plain [Foreign α] (c : Clause α) : String :=
  (if c.negated then "not " else "") ++ c.relation ++ "(" ++
    ", ".intercalate (c.terms.map Term.plain) ++ ")"

end Clause

/-- The variables of a rule, in order of first occurrence. -/
def Rule.vars (r : Rule α) : List String :=
  (r.flatMap Clause.vars).eraseDups

theorem Rule.mem_vars {r : Rule α} {x : String} :
    x ∈ Rule.vars r ↔ ∃ c ∈ r, .var x ∈ c.terms := by
  simp [Rule.vars, Clause.vars, Term.mem_vars]

end Verdict
