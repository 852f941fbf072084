import Verdict.Text.Digit
import Verdict.Text.Quoted

/-!
# Decimal numerals

Reading a run of decimal digits of any script as a number. A numeral holds at most 4300 digits,
leading zeros included: longer ones are refused, so that no input can make the conversion expensive.
-/

namespace Verdict

/-- Why a text is not a numeral. -/
inductive NumeralError where
  /-- It starts with more decimal digits than a numeral may have. -/
  | tooLong (digits : Nat)
  /-- It holds a character that is no decimal digit, or nothing at all. -/
  | notDecimal (text : String)
deriving DecidableEq, Repr

namespace Numeral

open Text

/-- How many digits a numeral may have. -/
def maxDigits : Nat := 4300

/-- The number that a row of digit values denotes. -/
def ofValues (values : List Nat) : Nat :=
  values.foldl (fun n d => 10 * n + d) 0

/-- Reads a numeral. The length of the leading run of digits is checked before what follows it. -/
def read (cs : List Char) : Except NumeralError Nat :=
  let leading := (cs.takeWhile fun c => (decimalValue? c).isSome).length
  if maxDigits < leading then .error (.tooLong leading)
  else match cs, cs.mapM decimalValue? with
    | _ :: _, some values => .ok (ofValues values)
    | _, _ => .error (.notDecimal (String.ofList cs))

end Numeral

/-- How many characters of the refused text a message shows. -/
def NumeralError.shownLength : Nat := 200

def NumeralError.message : NumeralError → String
  | .tooLong digits =>
    s!"Exceeds the limit ({Numeral.maxDigits} digits) for integer string conversion: value has " ++
      s!"{digits} digits; use sys.set_int_max_str_digits() to increase the limit"
  | .notDecimal text =>
    "invalid literal for int() with base 10: " ++
      String.ofList ((Text.quote text).toList.take shownLength)

end Verdict
