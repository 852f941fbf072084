import Verdict.Program.Clause
import Verdict.Program.Relation
import Verdict.Table

/-!
# Programs

A program declares nodes by name, in order: a *relation* is a list of facts, a *predicate* a head
with rules. Beside its nodes a program carries the facts computed for it so far, its *store*.

A name is looked up in the store first (`Program.resolve?`), so a computed entry shadows a declared
relation of the same name; a predicate for which nothing has been computed resolves to nothing.
-/

namespace Verdict

/-- A relation that is defined by rules. -/
structure Predicate (α : Type := Empty) where
  /-- The variables of the head, in the order of the arguments. -/
  args : List String
  rules : List (Rule α) := []
deriving DecidableEq

def Predicate.arity {α : Type} (p : Predicate α) : Nat := p.args.length

/-- What a name can be declared as. -/
inductive Node (α : Type := Empty) where
  | relation (r : Relation α)
  | predicate (p : Predicate α)
deriving DecidableEq

/-- The facts computed for each predicate, in the order in which the predicates first had some. -/
abbrev Store (α : Type := Empty) := Table String (Relation α)

/-- Declared nodes together with the facts computed from them. -/
structure Program (α : Type := Empty) where
  nodes : Table String (Node α) := ∅
  computed : Store α := ∅
deriving DecidableEq

variable {α : Type}

namespace Node

def relation? : Node α → Option (Relation α)
  | relation r => some r
  | predicate _ => none

def predicate? : Node α → Option (Predicate α)
  | relation _ => none
  | predicate p => some p

end Node

namespace Program

/-- The predicates with their names, in declared order. -/
def predicates (p : Program α) : List (String × Predicate α) :=
  p.nodes.entries.filterMap fun (name, node) => node.predicate?.map (name, ·)

/-- The declared relations with their names, in declared order. -/
def relations (p : Program α) : List (String × Relation α) :=
  p.nodes.entries.filterMap fun (name, node) => node.relation?.map (name, ·)

/-- The facts that a name stands for: those in the store, or else those of a declared relation. -/
def resolve? (p : Program α) (store : Store α) (name : String) : Option (Relation α) :=
  match store.get? name with
  | some r => some r
  | none => (p.nodes.get? name).bind Node.relation?

/-- The same nodes with another store. -/
def withComputed (p : Program α) (store : Store α) : Program α :=
  { p with computed := store }

/-- Declares the nodes of `q` as well. A name that both declare keeps its place in `p` and means what
`q` says; the store stays. -/
def extend (p q : Program α) : Program α :=
  { p with nodes := p.nodes.insertAll q.nodes.entries }

/-- The program with exactly the named nodes, in the given order, or the first name that it does not
declare. -/
def reorder (p : Program α) (names : List String) : Except String (Program α) := do
  let entries ← names.mapM fun name =>
    match p.nodes.get? name with
    | some node => Except.ok (name, node)
    | none => .error name
  return { p with nodes := .ofList entries }

end Program

end Verdict
