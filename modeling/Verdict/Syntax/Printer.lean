import Verdict.Syntax.Token
import Verdict.Program.Basic

/-!
# Printing programs

The written form of terms, clauses, rules and programs, such that a printed program reads back. A
text constant that is a word in itself, and no keyword, stands bare; any other stands between double
quotes, with backslash, double quote and line feed escaped.

`render` writes whatever it is given. Foreign values have no written form, so what leaves the library
goes through `print`, which refuses a program that holds one.
-/

namespace Verdict

variable {α : Type}

namespace Term

/-- How a character is written inside double quotes. -/
def escapeChar (c : Char) : List Char :=
  if c = '\\' ∨ c = '"' then ['\\', c] else if c = '\n' then ['\\', 'n'] else [c]

/-- Whether a text reads back as itself when it is written bare. -/
def isBare : List Char → Bool
  | [] => false
  | c :: cs =>
    Lexeme.isSmall c && cs.all Lexeme.inWord && Lexeme.wordKind (c :: cs) = .identifier

def renderText (value : String) : String :=
  let cs := value.toList
  if isBare cs then value else String.ofList ('"' :: cs.flatMap escapeChar ++ ['"'])

def render [Foreign α] : Term α → String
  | var name => name
  | text value => renderText value
  | truth value => truthWord value
  | foreign value => Foreign.shown value

/-- A name with arguments. -/
def renderAtom [Foreign α] (name : String) (terms : List (Term α)) : String :=
  name ++ "(" ++ ", ".intercalate (terms.map render) ++ ")"

end Term

def Clause.render [Foreign α] (c : Clause α) : String :=
  (if c.negated then "not " else "") ++ Term.renderAtom c.relation c.terms

/-- The written form of a rule with its head: one clause to a line. -/
def Rule.render [Foreign α] (name : String) (args : List String) (rule : Rule α) : String :=
  Term.renderAtom (α := α) name (args.map .var) ++ " :-\n    " ++
    ",\n    ".intercalate (rule.map Clause.render) ++ "."

/-- The statements of a node, written one by one. -/
def Node.render [Foreign α] (name : String) : Node α → List String
  | .relation r => r.facts.map fun f => Term.renderAtom name f ++ "."
  | .predicate p => p.rules.map (Rule.render name p.args)

/-- The facts of a store, written one to a line, without the dot that would declare them. -/
def Store.render [Foreign α] (s : Store α) : List String :=
  s.entries.flatMap fun (name, r) => r.facts.map (Term.renderAtom name)

namespace Program

/-- The written form of a program: a section for each node that says anything, and, if asked for, one
with the computed facts under a comment. -/
def render [Foreign α] (p : Program α) (includeComputed : Bool) : String :=
  let nodes := p.nodes.entries.map fun (name, node) => node.render name
  let declared := nodes.filter (! ·.isEmpty)
  let computed := if includeComputed then ["% Inferred statements:" :: p.computed.render] else []
  let sections := (declared ++ computed).map ("\n".intercalate ·)
  "\n\n".intercalate sections ++ "\n"

end Program

/-! ## What cannot be written -/

/-- A value without a written form. -/
structure PrintError (α : Type := Empty) where
  value : α
deriving DecidableEq, Repr

def PrintError.message [Foreign α] (e : PrintError α) : String :=
  "Unknown term: " ++ Foreign.shown e.value

/-- The terms of a node, in the order in which they are written. -/
def Node.terms : Node α → List (Term α)
  | .relation r => r.facts.flatten
  | .predicate p => p.rules.flatMap fun rule => rule.flatMap Clause.terms

/-- The terms of a program, in the order in which they are written. -/
def Program.terms (p : Program α) (includeComputed : Bool) : List (Term α) :=
  p.nodes.values.flatMap Node.terms ++
    if includeComputed then p.computed.values.flatMap (·.facts.flatten) else []

/-- Passes a written form on, unless a foreign value is among its terms. -/
def Term.unlessForeign (terms : List (Term α)) (written : String) : Except (PrintError α) String :=
  match terms.findSome? Term.foreign? with
  | some value => .error ⟨value⟩
  | none => .ok written

/-- The written form of a program, or the first value in it that has none. -/
def Program.print [Foreign α] (p : Program α) (includeComputed : Bool) :
    Except (PrintError α) String :=
  Term.unlessForeign (p.terms includeComputed) (p.render includeComputed)

end Verdict
