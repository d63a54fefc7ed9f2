import ClassScript.Syntax.Basic

/-!
# Arities

The bounds on the number of arguments that a parameter list allows.
-/

namespace ClassScript

/-- The least and the greatest number of arguments; without the latter there is no limit. -/
structure Arity where
  /-- The number of required parameters. -/
  lower : Nat
  /-- The number of parameters, unless the last one is variadic. -/
  upper : Option Nat
deriving DecidableEq

namespace Arity

/-- Whether a parameter needs an argument. -/
def isRequired (p : Param) : Bool := p.defaultValue.isNone && !p.variadic

/-- Whether the last parameter collects all further arguments. -/
def isVariadic (params : List Param) : Bool := params.getLast?.any (·.variadic)

/-- The arity of a parameter list. -/
def ofParams (params : List Param) : Arity :=
  { lower := (params.filter isRequired).length
    upper := if isVariadic params then none else some params.length }

/-- Whether a number of arguments lies within the bounds. -/
def admits (a : Arity) (count : Nat) : Bool := a.lower ≤ count && a.upper.all (count ≤ ·)

/-- The upper bound that a number stands for: a negative number and the greatest 64-bit integer
stand for no bound at all. -/
def bound? (n : Int) : Option Int := if n < 0 ∨ n = Int64.maxValue.toInt then none else some n

/-- The text of bounds. -/
def textOf (lower : Int) (upper : Option Int) : String :=
  match upper with
  | none => s!"at least {lower}"
  | some upper => if lower = upper then s!"{lower}" else s!"{lower} to {upper}"

/-- The arity as a text. -/
def text (a : Arity) : String := textOf a.lower (a.upper.map Int.ofNat)

end Arity

/-- The number of parameters in front of a variadic last one. -/
def fixedCount (params : List Param) : Nat :=
  if Arity.isVariadic params then params.length - 1 else params.length

end ClassScript
