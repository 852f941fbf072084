/-!
# Plain data

The data from which documents are read: the values of an interchange format, with integers kept apart
from numbers that are written with a fractional part.
-/

namespace Verdict

inductive Data where
  | null
  | bool (value : Bool)
  | integer (n : Int)
  /-- A number that is written with a fractional part or an exponent. What is written is
  `mantissa / 10 ^ places`; it stands for the nearest number in double precision. -/
  | decimal (mantissa : Int) (places : Nat)
  | text (s : String)
  | list (items : List Data)
  /-- Values under names; no name occurs twice. -/
  | record (fields : List (String × Data))
deriving Inhabited

namespace Data

def field? (fields : List (String × Data)) (name : String) : Option Data :=
  fields.lookup name

end Data

end Verdict
