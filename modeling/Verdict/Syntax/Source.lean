import Verdict.Syntax.Alignment
import Verdict.Syntax.Statement
import Verdict.Program.Basic

/-!
# Programs from text

Statements are put together into a program one after another. The facts of a name make up one
relation, its rules one predicate, and the nodes come in the order in which their names are first
stated. A name is either for facts or for rules; its facts agree in length, and its rules can be
aligned to the head of the first one.

`Program.parse` reads a whole text. A conflict between statements is reported before an error of form
further down, since it is found first; an error of lexing comes before both.
-/

namespace Verdict

/-- Why statements do not make a program. -/
inductive AssemblyError where
  /-- A name is used both for facts and for rules. -/
  | nameConflict (name : String) (line : Nat)
  /-- A fact is longer or shorter than the earlier ones of its name. -/
  | factArity (name : String) (arity earlier line : Nat)
  /-- A rule cannot take over the head of its predicate. -/
  | alignment (name : String) (e : AlignmentError)
deriving DecidableEq, Repr

def AssemblyError.message : AssemblyError → String
  | nameConflict name line => s!"Predicate and relation name conflict: {name} (line {line})"
  | factArity name arity earlier line =>
    s!"Fact arity {arity} for '{name}' does not match earlier arity {earlier} (line {line})"
  | alignment name (.arity head declared) =>
    s!"Rule head arity {head} for '{name}' does not match declared arity {declared}"
  | alignment name (.repeats x) =>
    s!"Rule head for '{name}' repeats variable {x} where the declared head does not"
  | alignment name (.merges declared) =>
    s!"Rule head for '{name}' cannot be aligned with declared head (" ++
      ", ".intercalate declared ++ ")"

/-- Why a text is not a program. -/
inductive SourceError where
  | form (e : FormError)
  | assembly (e : AssemblyError)
deriving DecidableEq, Repr

def SourceError.message : SourceError → String
  | form e => e.message
  | assembly e => e.message

variable {α : Type} [DecidableEq α]

namespace Program

/-- The nodes with one statement more. -/
def declare (nodes : Table String (Node α)) :
    Statement α → Except AssemblyError (Table String (Node α))
  | .fact name terms line =>
    match nodes.get? name with
    | some (.predicate _) => .error (.nameConflict name line)
    | none => .ok (nodes.insert name (.relation (.ofRows [terms])))
    | some (.relation r) =>
      match r.facts with
      | first :: _ =>
        if terms.length = first.length then .ok (nodes.insert name (.relation (r.insert terms)))
        else .error (.factArity name terms.length first.length line)
      | [] => .ok (nodes.insert name (.relation (.ofRows [terms])))
  | .rule name args body line =>
    match nodes.get? name with
    | some (.relation _) => .error (.nameConflict name line)
    | none => .ok (nodes.insert name (.predicate { args, rules := [body] }))
    | some (.predicate p) =>
      match Rule.align p.args args body with
      | .ok aligned =>
        .ok (nodes.insert name (.predicate { p with rules := p.rules ++ [aligned] }))
      | .error e => .error (.alignment name e)

/-- The nodes with several statements more. -/
def declareAll (nodes : Table String (Node α)) :
    List (Statement α) → Except AssemblyError (Table String (Node α))
  | [] => .ok nodes
  | s :: rest => do
    let nodes ← declare nodes s
    declareAll nodes rest

/-- The program that a reading stands for. -/
def ofReading (r : Reading α) : Except SourceError (Program α) :=
  -- The statements all stand before the error of form, so a conflict among them comes first.
  match declareAll ∅ r.statements, r.error? with
  | .error e, _ => .error (.assembly e)
  | .ok _, some e => .error (.form e)
  | .ok nodes, none => .ok { nodes }

/-- The program of a text, with nothing computed. -/
def parse (source : String) : Except SourceError (Program α) :=
  match tokenize source with
  | .error e => .error (.form e)
  | .ok tokens => ofReading (.ofTokens tokens)

end Program

end Verdict
