import Verdict.Syntax.Position
import Verdict.Program.Term
import Verdict.Text.Quoted

/-!
# Token kinds and errors of form

The kinds of token, with the names by which messages call them, and everything that can be wrong with
the form of a program text. An error of form has a cause and a place.
-/

namespace Verdict

/-- The kinds of token. -/
inductive TokenKind where
  /-- The sign between the head and the body of a rule. -/
  | arrow
  | comma
  | lparen
  | rparen
  | dot
  /-- A word with a capital first letter. -/
  | var
  /-- A word with a small first letter that is no keyword. -/
  | identifier
  | text
  | negation
  | truth (value : Bool)
deriving DecidableEq, Repr

/-- The name of a kind in messages. -/
def TokenKind.name : TokenKind → String
  | arrow => "arrow"
  | comma => "comma"
  | lparen => "lparen"
  | rparen => "rparen"
  | dot => "dot"
  | var => "variable"
  | identifier => "identifier"
  | text => "string"
  | negation => "not"
  | truth value => Term.truthWord value

/-- What is wrong with the form of a program text. -/
inductive FormFault where
  /-- No token starts with this character here. -/
  | unexpectedCharacter (c : Char)
  /-- The text ends in the middle of a statement. -/
  | unexpectedEnd
  /-- Another kind of token has to stand here. -/
  | expected (kind : TokenKind) (found : String)
  | expectedTerm (found : String)
  | factNotGround (name variableName : String)
  /-- A rule head holds something else than a variable. -/
  | headNotVariable (name found : String)
deriving DecidableEq, Repr

open Text in
def FormFault.message : FormFault → String
  | unexpectedCharacter c => "Unexpected character " ++ quote (String.singleton c)
  | unexpectedEnd => "Unexpected end of input"
  | expected kind found => s!"Expected {kind.name}, found " ++ quote found
  | expectedTerm found => "Expected a term, found " ++ quote found
  | factNotGround name x => s!"Fact '{name}' must be ground, found variable {x}"
  | headNotVariable name found =>
    s!"Rule head '{name}' arguments must be variables, found " ++ quote found

/-- An error of form: what is wrong, and where. -/
structure FormError where
  fault : FormFault
  position : Position
deriving DecidableEq, Repr

def FormError.message (e : FormError) : String :=
  e.fault.message ++ s!" at line {e.position.line}, column {e.position.column}"

end Verdict
