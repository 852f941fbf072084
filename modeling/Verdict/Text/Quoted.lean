import Verdict.Text.Printable

/-!
# Quoted text in messages

A message that names a piece of the input shows it between quotes, with everything that would not
print replaced by an escape. Single quotes are the rule; a text that holds a single quote and no
double quote gets double quotes, so that it needs no escape.
-/

namespace Verdict.Text

/-- The last `width` hexadecimal digits of `n`, in lower case. -/
def hexDigits (width n : Nat) : List Char :=
  let digits := Nat.toDigits 16 n
  List.replicate (width - digits.length) '0' ++ digits

/-- The quote that stands around `cs`. -/
def quoteMark (cs : List Char) : Char :=
  if cs.contains '\'' && !cs.contains '"' then '"' else '\''

/-- How `c` is shown between two `mark`s: the mark and the backslash after a backslash, the three
common controls by letter, other characters that do not print by number. -/
def quoteChar (mark c : Char) : List Char :=
  if c = mark ∨ c = '\\' then ['\\', c]
  else if c = '\n' then ['\\', 'n']
  else if c = '\r' then ['\\', 'r']
  else if c = '\t' then ['\\', 't']
  else if isPrintable c then [c]
  else if c.toNat < 0x100 then '\\' :: 'x' :: hexDigits 2 c.toNat
  else if c.toNat < 0x10000 then '\\' :: 'u' :: hexDigits 4 c.toNat
  else '\\' :: 'U' :: hexDigits 8 c.toNat

/-- The text as a message shows it. -/
def quote (text : String) : String :=
  let cs := text.toList
  let mark := quoteMark cs
  String.ofList (mark :: cs.flatMap (quoteChar mark) ++ [mark])

example : quote "it's" = "\"it's\"" := by decide +kernel

example : quote "a\nb\x00" = "'a\\nb\\x00'" := by decide +kernel

end Verdict.Text
