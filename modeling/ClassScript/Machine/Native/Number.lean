import ClassScript.Decimal.Remainder
import ClassScript.Machine.Engine

/-!
# Numbers

Integers wrap around at 64 bits and their division is cut toward zero. An operation of an integer
and a floating-point number takes both as floating-point numbers.
-/

namespace ClassScript

namespace Arithmetic

/-- An operation of integers. -/
def onInts : Arithmetic → Int64 → Int64 → Except Cause Int64
  | add, a, b => .ok (a + b)
  | subtract, a, b => .ok (a - b)
  | multiply, a, b => .ok (a * b)
  | divide, a, b => if b = 0 then .error .divisionByZero else .ok (a / b)
  | modulo, a, b => if b = 0 then .error .divisionByZero else .ok (a % b)

/-- An operation of floating-point numbers. -/
def onFloats : Arithmetic → Float → Float → Except Cause Float
  | add, x, y => .ok (x + y)
  | subtract, x, y => .ok (x - y)
  | multiply, x, y => .ok (x * y)
  | divide, x, y => if y == 0 then .error .divisionByZero else .ok (x / y)
  | modulo, x, y => if y == 0 then .error .divisionByZero else .ok (Decimal.remainder x y)

/-- An operation of an integer and a number. -/
def onInt (op : Arithmetic) (a : Int64) : Value → Except Cause Value
  | .int b => .int <$> op.onInts a b
  | .float y => .float <$> op.onFloats a.toFloat y
  | v => .error (.wrongArgument ("Int." ++ op.name) "Number" v.typeName)

/-- An operation of a floating-point number and a number. -/
def onFloat (op : Arithmetic) (x : Float) : Value → Except Cause Value
  | .int b => .float <$> op.onFloats x b.toFloat
  | .float y => .float <$> op.onFloats x y
  | v => .error (.wrongArgument ("Float." ++ op.name) "Number" v.typeName)

end Arithmetic

/-- Whether an integer is greater than a number. -/
def intGreaterThan (a : Int64) : Value → Except Cause Bool
  | .int b => .ok (decide (b < a))
  | .float y => .ok (decide (y < a.toFloat))
  | v => .error (.wrongArgument "Int.greaterThan" "Number" v.typeName)

/-- Whether an integer equals a value. -/
def intEquals (a : Int64) : Value → Bool
  | .int b => a == b
  | .float y => a.toFloat == y
  | _ => false

/-- Whether a floating-point number is greater than a number. -/
def floatGreaterThan (x : Float) : Value → Except Cause Bool
  | .int b => .ok (decide (b.toFloat < x))
  | .float y => .ok (decide (y < x))
  | v => .error (.wrongArgument "Float.greaterThan" "Number" v.typeName)

/-- Whether a floating-point number equals a value. -/
def floatEquals (x : Float) : Value → Bool
  | .int b => x == b.toFloat
  | .float y => x == y
  | _ => false

end ClassScript
