import Verdict.Document.Basic
import Verdict.Numeral
import Verdict.Text.Blank
import Verdict.Text.Split

/-!
# Dependency expressions

An expression such as `1 & 2 & $backlog` lists what an inference depends on. Its parts stand between
ampersands; blank ones do not count. A part that starts with a dollar sign names a document, a part
that consists of digits is a number, and any other part is an id as it stands.

A part of digits need not be a numeral: there are digits without a decimal value, and numerals that
are too long. Such an expression is refused.
-/

namespace Verdict.Dependency

open Text

/-- The dependency that a part stands for, without the blanks around it. -/
def ofPart (part : List Char) : Except NumeralError Id :=
  match part with
  | '$' :: name => .ok (.text (String.ofList name))
  | _ =>
    if part.all isDigit then (Numeral.read part).map fun n => .number n
    else .ok (.text (String.ofList part))

/-- The parts that are not blank, without the blanks around them. -/
def parts (expression : List Char) : List (List Char) :=
  ((split '&' expression).map trim).filter (! ·.isEmpty)

/-- The dependencies of an expression, in order. -/
def read (expression : List Char) : Except NumeralError (List Id) :=
  (parts expression).mapM ofPart

end Verdict.Dependency
