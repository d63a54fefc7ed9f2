/-!
# Shortest decimals

The decimal with the fewest digits that lies among the reals a binary floating-point number
stands for, and of those the nearest to it. All arithmetic is exact.
-/

namespace ClassScript.Decimal

/-- A positive binary number `mantissa * 2 ^ exponent`. -/
structure Binary where
  /-- The integer significand. -/
  mantissa : Nat
  /-- The power of two it is scaled by. -/
  exponent : Int
  /-- Whether the next smaller number is only half as far away as the next larger one. -/
  narrowBelow : Bool

/-- A positive decimal number `digits * 10 ^ exponent`. -/
structure Scientific where
  /-- The significant digits, without trailing zeros. -/
  digits : Nat
  /-- The power of ten they are scaled by. -/
  exponent : Int
deriving DecidableEq, Inhabited

/-- The magnitude of a finite, nonzero 64-bit floating-point number with the given bits. -/
def Binary.ofBits (bits : UInt64) : Binary :=
  let fraction : Nat := bits.toNat % (1 <<< 52)
  let biased : Nat := bits.toNat / (1 <<< 52) % (1 <<< 11)
  if biased = 0 then ⟨fraction, -1074, false⟩
  else ⟨fraction + (1 <<< 52), (biased : Int) - 1075, fraction = 0 && biased > 1⟩

/-- A binary number on a decimal grid. In units of `10 ^ unit` it is `value / scale`, and the
reals that round to it reach from `low / scale` to `high / scale`. -/
structure Grid where
  /-- The number, scaled. -/
  value : Nat
  /-- The lower end of the reals that round to it, scaled. -/
  low : Nat
  /-- The upper end of the reals that round to it, scaled. -/
  high : Nat
  /-- The common scale. -/
  scale : Nat
  /-- Whether the two ends round to the number themselves. -/
  closed : Bool

/-- A binary number on the grid of the multiples of `10 ^ unit`. -/
def Binary.grid (b : Binary) (unit : Int) : Grid :=
  -- In quarters of the last bit both ends of the reals that round to the number are integers.
  let up := Nat.pow 10 (-unit).toNat <<< (b.exponent - 2).toNat
  let down := Nat.pow 10 unit.toNat <<< (2 - b.exponent).toNat
  { value := 4 * b.mantissa * up
    low := (4 * b.mantissa - if b.narrowBelow then 1 else 2) * up
    high := (4 * b.mantissa + 2) * up
    scale := down
    closed := b.mantissa % 2 = 0 }

/-- Whether the `k`-th grid point rounds to the number. -/
def Grid.admits (g : Grid) (k : Nat) : Bool :=
  let point := k * g.scale
  if g.closed then g.low ≤ point && point ≤ g.high else g.low < point && point < g.high

/-- The grid point nearest to the number among its two neighbours that round to it; of two
equally near ones the even one. -/
def Grid.nearest? (g : Grid) : Option Nat :=
  let below := g.value / g.scale
  let above := below + 1
  match g.admits below, g.admits above with
  | true, true =>
    let fall := g.value - below * g.scale
    let rise := above * g.scale - g.value
    if fall < rise then some below
    else if rise < fall then some above
    else some (if below % 2 = 0 then below else above)
  | true, false => some below
  | false, true => some above
  | false, false => none

/-- An integer with its trailing zeros moved into the exponent. -/
def Scientific.trimmed : Nat → Nat → Int → Scientific
  | 0, digits, exponent => ⟨digits, exponent⟩
  | fuel + 1, digits, exponent =>
    if digits ≠ 0 && digits % 10 = 0 then trimmed fuel (digits / 10) (exponent + 1)
    else ⟨digits, exponent⟩

/-- The first grid, from coarse to fine, that has a point rounding to the number. -/
def Binary.search (b : Binary) : Nat → Int → Scientific
  | 0, _ => ⟨0, 0⟩
  | fuel + 1, unit =>
    match (b.grid unit).nearest? with
    | none => b.search fuel (unit - 1)
    | some k => Scientific.trimmed 400 k unit

/-- The power of ten that is larger than the number. -/
def Binary.magnitude (b : Binary) : Int :=
  let bound := b.mantissa <<< b.exponent.toNat
  if b.exponent ≥ 0 then (Nat.toDigits 10 bound).length
  else
    let whole := b.mantissa >>> (-b.exponent).toNat
    if whole > 0 then (Nat.toDigits 10 whole).length
    else 1 - ((Nat.toDigits 10 ((1 <<< (-b.exponent).toNat) / b.mantissa)).length : Int) + 1

/-- The shortest decimal of a binary number. -/
def Binary.shortest (b : Binary) : Scientific := b.search 40 b.magnitude

/-- The digits of a decimal, the most significant first. -/
def Scientific.digitList (s : Scientific) : List Char := Nat.toDigits 10 s.digits

/-- The position of the decimal point, counted from the first digit. -/
def Scientific.point (s : Scientific) : Int := s.digitList.length + s.exponent

end ClassScript.Decimal
