import ClassScript.Typing.Type

/-!
# Relations between types

When two types describe the same values, which of two types is the more general one, and whether
a value of a type may be passed where another type is declared. Function types are compared part
by part. The comparison of two function types that contain themselves may never end; it then has
no answer.
-/

namespace ClassScript.Typing

mutual

/-- Whether a class is another one or inherits from it. -/
def ClassType.subclassOf (other : ClassType) : ClassType → Bool
  | ⟨id, _, supers, _⟩ => id = other.id || ClassType.anySubclassOf other supers

/-- Whether one of several classes is another one or inherits from it. -/
def ClassType.anySubclassOf (other : ClassType) : List ClassType → Bool
  | [] => false
  | c :: rest => ClassType.subclassOf other c || ClassType.anySubclassOf other rest

end

/-- Whether a type stands for every value. A missing type does. -/
def isObject : Option Ty → Bool
  | none => true
  | some (.instance c) => c.native? = some .object
  | some _ => false

/-- Whether two types are one and the same. -/
def Ty.identical : Ty → Ty → Bool
  | .instance a, .instance b => a.id = b.id
  | .class a, .class b => a.id = b.id
  | .function f, .function g => f = g
  | _, _ => false

namespace Checker

/-- The pairs of types that have to be the same for two signatures to be, in the order they are
compared, or nothing if the signatures differ in the number of parameters. -/
def paramPairs? (f g : Signature) : Option (List ((Param × Ty) × (Param × Ty))) :=
  if f.paramTypes.length = g.paramTypes.length then
    some ((f.params.zip f.paramTypes).zip (g.params.zip g.paramTypes))
  else none

/-- Whether parameters are of the same types, by a comparison of types, and variadic alike. -/
def sameParamsBy (same : Option Ty → Option Ty → Option Bool) :
    List ((Param × Ty) × (Param × Ty)) → Option Bool
  | [] => some true
  | ((p, t), (q, u)) :: rest => do
    if ← same (some t) (some u) then
      if p.variadic = q.variadic then sameParamsBy same rest else return false
    else return false

/-- Whether two signatures are the same by a comparison of types: their parameters, and then their
results. -/
def sameSignaturesBy (same : Option Ty → Option Ty → Option Bool) (f g : Signature) :
    Option Bool :=
  match paramPairs? f g with
  | none => some false
  | some pairs => do
    if ← sameParamsBy same pairs then same f.returns g.returns else return false

/-- Whether two types describe the same values, for functions nested down to a number of levels. -/
def sameUpTo (s : Checker) : Nat → Option Ty → Option Ty → Option Bool
  | 0, some (.function f), some (.function g) => if f = g then some true else none
  | levels + 1, some (.function f), some (.function g) =>
    if f = g then some true
    else sameSignaturesBy (s.sameUpTo levels) (s.signature f) (s.signature g)
  | _, none, b => some (isObject b)
  | _, a, none => some (isObject a)
  | _, some a, some b => some (a.identical b)

/-- Whether two types describe the same values. There are no more pairs of functions than the
bound on the levels, so that a comparison without an answer comes back to a pair it started
from. -/
def same? (s : Checker) (a b : Option Ty) : Option Bool :=
  s.sameUpTo (s.signatures.size * s.signatures.size + 1) a b

/-- The more general of two types, if one is an ancestor of the other. -/
def unify? (s : Checker) (a b : Option Ty) : Option (Option (Option Ty)) := do
  if ← s.same? a b then return some a
  else if isObject a then return some a
  else if isObject b then return some b
  else
    match a, b with
    | some (.instance c), some (.instance d) =>
      if ClassType.subclassOf d c then return some b
      else if ClassType.subclassOf c d then return some a
      else return none
    | _, _ => return none

/-- Whether a value of a type may be passed where a type is declared. Nothing is checked where
either stands for every value. -/
def assignable? (s : Checker) (param arg : Option Ty) : Option Bool := do
  if isObject param || isObject arg then return true
  else if ← s.same? param arg then return true
  else
    match param, arg with
    | some (.instance c), some (.instance d) => return ClassType.subclassOf c d
    | _, _ => return false

end Checker

end ClassScript.Typing
