import ClassScript.Decimal.Shortest

/-!
# Texts of floating-point numbers

Positional notation, scientific notation, and the rule that chooses between them.
-/

namespace ClassScript.Decimal

/-- Positional notation: every digit up to the units, and a fraction only where there is one. -/
def positional (s : Scientific) : String :=
  let digits := s.digitList
  let point := s.point
  if point ≤ 0 then
    String.ofList ('0' :: '.' :: List.replicate (-point).toNat '0' ++ digits)
  else if digits.length ≤ point.toNat then
    String.ofList (digits ++ List.replicate (point.toNat - digits.length) '0')
  else
    String.ofList (digits.take point.toNat ++ '.' :: digits.drop point.toNat)

/-- Scientific notation: one digit before the point, and an exponent with a sign and at least
two digits. -/
def scientific (s : Scientific) : String :=
  let digits := s.digitList
  let exponent := s.point - 1
  let fraction := match digits.drop 1 with
    | [] => []
    | rest => '.' :: rest
  let magnitude := Nat.toDigits 10 exponent.natAbs
  String.ofList (digits.take 1 ++ fraction ++ ['e', if exponent < 0 then '-' else '+']
    ++ List.replicate (2 - magnitude.length) '0' ++ magnitude)

/-- Positional notation for decimal exponents from -4 to 5, scientific notation elsewhere. -/
def compact (s : Scientific) : String :=
  let exponent := s.point - 1
  if exponent < -4 || exponent ≥ 6 then scientific s else positional s

/-- The text of a floating-point number, with the given notation for finite nonzero ones. -/
def textWith (notate : Scientific → String) (x : Float) : String :=
  if x.isNaN then "NaN"
  else
    let bits := x.toBits
    let negative := bits.toNat / (1 <<< 63) = 1
    if x.isInf then (if negative then "-Inf" else "+Inf")
    else
      let body := if bits.toNat % (1 <<< 63) = 0 then "0" else notate (Binary.ofBits bits).shortest
      if negative then "-" ++ body else body

/-- The text of a floating-point number without an exponent. -/
def plainText (x : Float) : String := textWith positional x

/-- The text of a floating-point number, with an exponent when it is very large or small. -/
def compactText (x : Float) : String := textWith compact x

/-- The text of a floating-point number that always shows a fractional part, so that a whole
number is not mistaken for an integer. -/
def fractionalText (x : Float) : String :=
  let s := plainText x
  if x.isNaN || x.isInf || s.contains '.' then s else s ++ ".0"

end ClassScript.Decimal
