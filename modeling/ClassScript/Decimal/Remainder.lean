/-!
# Remainders of floating-point numbers

The remainder of a division whose quotient is cut to an integer. It has the sign of the dividend
and is computed without rounding: both numbers are brought to one power of two, where the
remainder is one of integers.
-/

namespace ClassScript.Decimal

/-- The integer and the power of two that a finite number's magnitude is the product of. -/
def parts (x : Float) : Nat × Int :=
  let bits := x.toBits.toNat
  let fraction : Nat := bits % (1 <<< 52)
  let biased : Nat := bits / (1 <<< 52) % (1 <<< 11)
  if biased = 0 then (fraction, -1074) else (fraction + (1 <<< 52), (biased : Int) - 1075)

/-- Whether the sign bit is set. -/
def isNegative (x : Float) : Bool := x.toBits.toNat / (1 <<< 63) = 1

/-- The remainder of the magnitudes of two finite numbers, the second one not zero. -/
def magnitudeRemainder (x y : Float) : Float :=
  let (m, e) := parts x
  let (n, f) := parts y
  let low := min e f
  let r := (m <<< (e - low).toNat) % (n <<< (f - low).toNat)
  (Float.ofNat r).scaleB low

/-- The remainder of a division by a number that is not zero. -/
def remainder (x y : Float) : Float :=
  if x.isNaN || y.isNaN || x.isInf then 0.0 / 0.0
  else if y.isInf then x
  else
    let r := magnitudeRemainder x y
    if isNegative x then -r else r

end ClassScript.Decimal
