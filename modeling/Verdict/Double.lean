/-!
# Double precision

A number that is written with a fractional part or an exponent is not kept as it is written: it stands
for the number nearest to it among those that double precision holds, which are `m * 2 ^ e` with `m` of
at most 53 bits and `e` at least -1074. Of two that are equally near, the one with an even `m` is taken.
What is too large for double precision is infinite.
-/

namespace Verdict

/-- A finite number in double precision, `mantissa * 2 ^ exponent`. -/
structure Double where
  mantissa : Int
  exponent : Int
deriving DecidableEq, Repr

namespace Double

/-- `n / d`, rounded to the nearest integer, and to the even one of two. -/
def roundRatio (n d : Nat) : Nat :=
  let q := n / d
  let r := n % d
  if d < 2 * r || (2 * r = d && q % 2 = 1) then q + 1 else q

/-- The largest `k` with `2 ^ k` at most `n / d`, both of which are positive. -/
def floorLog2 (n d : Nat) : Int :=
  let k : Int := n.log2 - d.log2
  if d <<< k.toNat ≤ n <<< (-k).toNat then k else k - 1

/-- The number nearest to `n / d`, or `none` if that is too large. -/
def ofRatio (n d : Nat) : Option Double :=
  if n = 0 then some { mantissa := 0, exponent := 0 }
  else
    let exponent := max (floorLog2 n d - 52) (-1074)
    let mantissa := roundRatio (n <<< (-exponent).toNat) (d <<< exponent.toNat)
    -- The largest number that fits is one unit below the power with exponent 1024.
    if 1024 ≤ floorLog2 mantissa 1 + exponent then none
    else some { mantissa, exponent }

/-- The number nearest to `m / 10 ^ places`, or `none` if that is too large. -/
def ofDecimal (m : Int) (places : Nat) : Option Double :=
  (ofRatio m.natAbs (Nat.pow 10 places)).map fun x =>
    if m < 0 then { x with mantissa := -x.mantissa } else x

/-- The integer that the number is equal to. -/
def whole? (x : Double) : Option Int :=
  let shift : Nat := 1 <<< (-x.exponent).toNat
  if x.mantissa % shift = 0 then some (x.mantissa / shift * (1 <<< x.exponent.toNat : Nat)) else none

end Double

end Verdict
