import Std.Data.TreeMap
import ClassScript.Hierarchy
import ClassScript.Native.Basic
import ClassScript.Scope.Origin

/-!
# Types

The checker's picture of values. A class has two types, its own and that of its instances. A
function's type refers to a signature, because the result of a function is known only after its
body was checked, and the body may use the function.
-/

namespace ClassScript.Typing

/-- The place of a signature in the checker's state. -/
abbrev SignatureId := Nat

/-- A class as the checker sees it. Its superclasses exist before it does. -/
structure ClassType where
  /-- The identity, and the place of the class's members in the checker's state. -/
  id : Nat
  /-- The name. -/
  name : String
  /-- The immediate superclasses in declaration order. -/
  supers : List ClassType
  /-- The native class it stands for, if it stands for one. -/
  native? : Option NativeClass
deriving Inhabited

/-- No class type is among its own ancestors. -/
theorem ClassType.acyclic : WellFounded fun s c : ClassType => s ∈ c.supers := by
  refine Subrelation.wf (r := InvImage (· < ·) sizeOf) ?_ (InvImage.wf _ Nat.lt_wfRel.wf)
  intro s c h
  cases c
  have := List.sizeOf_lt_of_mem h
  simp only [InvImage, mk.sizeOf_spec]
  simp only at this
  omega

/-- The type of a value. -/
inductive Ty where
  /-- The type of the objects of a class. -/
  | instance (cls : ClassType)
  /-- The type of a class itself. -/
  | class (cls : ClassType)
  /-- The type of a function, method or function literal. -/
  | function (signature : SignatureId)
deriving Inhabited

/-- What is known of a function. -/
structure Signature where
  /-- The name. -/
  name : String
  /-- The parameters. -/
  params : List Param
  /-- The declared types of the parameters; for a variadic one, that of each argument. -/
  paramTypes : List Ty
  /-- The type of the result, unless the body was not checked yet. -/
  returns : Option Ty
  /-- The type of the result where the class of the first argument decides it. -/
  returnsByArg : List (String × Ty) := []
  /-- Whether the body uses the superclasses. -/
  callsSuper : Bool := false
deriving Inhabited

/-- What is known of the members of a class. -/
structure ClassBody where
  /-- The methods. -/
  members : Std.TreeMap String SignatureId := ∅
  /-- The fields of the objects. -/
  attributes : Std.TreeMap String Ty := ∅
deriving Inhabited

/-- A scope during the check: names with their types. A variable that never had a value has no
type yet. -/
structure StaticScope where
  /-- The syntax the scope belongs to. -/
  origin : Scope.Origin
  /-- The names, the latest definition first. -/
  vars : List (String × Option Ty) := []

/-- The function whose body is being checked. -/
structure Context where
  /-- The types of the results so far, each with its keyword, the latest first. -/
  returns : List (Ty × Token) := []
  /-- Whether the function is an initializer. -/
  isInitializer : Bool := false
  /-- The method that a superclass call without a name refers to, or nothing. -/
  home : String := ""
  /-- The enclosing method. -/
  method? : Option SignatureId := none
  /-- The enclosing class. -/
  class? : Option ClassType := none

/-- The state of the checker. -/
structure Checker where
  /-- The signatures of all functions. -/
  signatures : Array Signature := #[]
  /-- The members of all classes. -/
  bodies : Array ClassBody := #[]
  /-- The types of the nodes checked so far. -/
  types : Std.TreeMap NodeId Ty := ∅
  /-- The syntax of the scopes that the names of uses were found in, nothing for a name that was
  found nowhere. -/
  found : Std.TreeMap NodeId (Option Scope.Origin) := ∅
  /-- The types of the global names. -/
  globals : Std.TreeMap String (Option Ty) := ∅
  /-- The local scopes, the innermost first. -/
  locals : List StaticScope := []
  /-- The function whose body is being checked. -/
  context : Option Context := none
  /-- The signatures of the native methods used so far. -/
  nativeMethods : List (Operation × SignatureId) := []
deriving Inhabited

/-! ### Native types -/

/-- The place of a native class. -/
def nativeId (c : NativeClass) : Nat := NativeClass.all.idxOf c

/-- The class type of a native class. -/
def nativeType (c : NativeClass) : ClassType :=
  { id := nativeId c
    name := c.name
    supers := (c.parent?.map fun p =>
      { id := nativeId p, name := p.name, supers := [], native? := some p }).toList
    native? := some c }

/-- The type of the values of a native class. -/
def builtin (c : NativeClass) : Ty := .instance (nativeType c)

/-- The type that stands for every value. -/
def objectType : Ty := builtin .object

/-! ### Texts -/

namespace Checker

/-- A signature. -/
def signature (s : Checker) (f : SignatureId) : Signature := s.signatures[f]?.getD default

/-- The texts of parameters, with given texts of types. -/
def paramTextsBy (text : Ty → Option String) : List (Param × Ty) → Option (List String)
  | [] => some []
  | (p, t) :: rest => do
    let type ← text t
    let others ← paramTextsBy text rest
    return (type ++ " " ++ (if p.variadic then "..." else "") ++ p.name.lexeme) :: others

/-- The text of a result's type, with given texts of types. -/
def resultTextBy (text : Ty → Option String) : Option Ty → Option String
  | none => some "Object"
  | some t => text t

/-- The text of a signature, with given texts of types. -/
def signatureTextBy (text : Ty → Option String) (sig : Signature) : Option String := do
  let params ← paramTextsBy text (sig.params.zip sig.paramTypes)
  let result ← resultTextBy text sig.returns
  return "fun(" ++ String.intercalate ", " params ++ ") -> " ++ result

/-- The text of a type, for functions nested down to a number of levels. -/
def typeTextUpTo (s : Checker) : Nat → Ty → Option String
  | _, .instance c => some c.name
  | _, .class c => some ("class " ++ c.name)
  | 0, .function _ => none
  | levels + 1, .function f => signatureTextBy (s.typeTextUpTo levels) (s.signature f)

/-- The text of a type. A function type that contains itself has none: with more levels than there
are functions, some function occurs inside itself. -/
def typeText? (s : Checker) : Option Ty → Option String
  | none => some "Object"
  | some t => s.typeTextUpTo (s.signatures.size + 1) t

end Checker

/-- The name of a type's kind. -/
def Ty.kindName : Ty → String
  | .instance _ => "instance"
  | .class _ => "class"
  | .function _ => "function"

/-- The name of the kind with a number; a number without a kind is shown as it is. -/
def kindNameOfNumber (n : Int) : String :=
  match n with
  | 0 => "instance"
  | 1 => "class"
  | 2 => "function"
  | n => s!"Kind({n})"

end ClassScript.Typing
