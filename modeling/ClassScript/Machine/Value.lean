import ClassScript.Decimal.Text
import ClassScript.Hierarchy
import ClassScript.Native.Basic

/-!
# Values

The values of a running program. Numbers, texts and truth values are what they contain; every
other value has an identity, and values with parts that change refer to a place in the store.
-/

namespace ClassScript

/-- The identity of a value that is not what it contains. -/
abbrev ObjectId := Nat

/-- The place of a scope in the store. -/
abbrev ScopeId := Nat

/-- A function with the scope it was made in. -/
structure Closure where
  /-- The identity. -/
  id : ObjectId
  /-- The declaration. -/
  declaration : Lambda
  /-- The scope around the function. -/
  scope : ScopeId
  /-- The method that a superclass call without a name refers to, or nothing. -/
  home : String
  /-- Whether the function always answers its receiver. -/
  isInitializer : Bool
deriving Inhabited

/-- A class of a program. Its superclasses exist before it does. -/
structure Class where
  /-- The identity. -/
  id : ObjectId
  /-- The name. -/
  name : String
  /-- The immediate superclasses in declaration order. -/
  supers : List Class
  /-- The methods, the latest declaration of a name first. -/
  methods : List (String × Closure)
deriving Inhabited

namespace Class

/-- No class is among its own ancestors. -/
theorem acyclic : WellFounded fun s c : Class => s ∈ c.supers := by
  refine Subrelation.wf (r := InvImage (· < ·) sizeOf) ?_ (InvImage.wf _ Nat.lt_wfRel.wf)
  intro s c h
  cases c
  have := List.sizeOf_lt_of_mem h
  simp only [InvImage, mk.sizeOf_spec]
  simp only at this
  omega

/-- Member lookup on the classes of a program. -/
def hierarchy : Hierarchy Class Closure where
  own c name := c.methods.lookup name
  supers := supers
  name := name
  acyclic := acyclic

/-- Looks a method up on a class and its ancestors. -/
def lookup (c : Class) (name : String) : Lookup Closure := hierarchy.lookup name c

/-- The initializer; an ambiguous one counts as none. -/
def initializer? (c : Class) : Option Closure := (c.lookup "init").hit?.map Prod.fst

/-- The parameters a class is called with. -/
def params (c : Class) : List Param := (c.initializer?.map (·.declaration.params)).getD []

mutual

/-- Whether a class is another one or inherits from it. -/
def isSubclassOf (other : Class) : Class → Bool
  | ⟨id, _, supers, _⟩ => id = other.id || anySubclassOf other supers

/-- Whether one of several classes is another one or inherits from it. -/
def anySubclassOf (other : Class) : List Class → Bool
  | [] => false
  | c :: rest => isSubclassOf other c || anySubclassOf other rest

end

end Class

/-- A value. -/
inductive Value where
  /-- Nothing. -/
  | nil
  /-- A truth value. -/
  | bool (b : Bool)
  /-- A 64-bit integer. -/
  | int (n : Int64)
  /-- A 64-bit floating-point number. -/
  | float (x : Float)
  /-- A text. -/
  | string (s : String)
  /-- A growable list. -/
  | list (place : Nat)
  /-- A map that keeps insertion order. -/
  | map (place : Nat)
  /-- An iterator. -/
  | iterator (place : Nat)
  /-- An object of a program's class. -/
  | instance (place : Nat) (cls : Class)
  /-- Two values. -/
  | pair (id : ObjectId) (first second : Value)
  /-- The arguments a variadic parameter collected. -/
  | varargs (id : ObjectId) (items : List Value)
  /-- One step of an iteration. -/
  | iteratorResult (id : ObjectId) (value : Value) (isEnd : Bool)
  /-- A class of the program. -/
  | class (cls : Class)
  /-- A function of the program. -/
  | closure (fn : Closure)
  /-- A native class. -/
  | nativeClass (cls : NativeClass)
  /-- A native function. -/
  | nativeFunction (fn : NativeFunction)
  /-- A native method with its receiver. -/
  | boundMethod (id : ObjectId) (receiver : Value) (method : NativeMethod)
  /-- The superclasses that the methods of a class see. -/
  | superclasses (classes : List Class)
deriving Inhabited

namespace Value

/-- The name of a value's class. -/
def typeName : Value → String
  | nil => "Nil"
  | bool _ => "Bool"
  | int _ => "Int"
  | float _ => "Float"
  | string _ => "String"
  | list _ => "List"
  | map _ => "Map"
  | iterator _ => "Iterator"
  | .instance _ cls => cls.name
  | pair .. => "Pair"
  | varargs .. => "Varargs"
  | iteratorResult .. => "IteratorResult"
  | .class _ | nativeClass _ => "Class"
  | closure _ | nativeFunction _ | boundMethod .. => "Function"
  | superclasses _ => "Superclasses"

/-- The native class that a value has its methods from, if it has one. -/
def nativeClass? : Value → Option NativeClass
  | nil => some .nil
  | bool _ => some .bool
  | int _ => some .int
  | float _ => some .float
  | string _ => some .string
  | list _ => some .list
  | map _ => some .map
  | iterator _ => some .iterator
  | pair .. => some .pair
  | varargs .. => some .varargs
  | iteratorResult .. => some .iteratorResult
  | _ => none

/-- The native class that a value has its shared methods from: that of every object if it has no
other. -/
def classOf (v : Value) : NativeClass := v.nativeClass?.getD .object

/-- A value as a text that does not ask the program. -/
def describe : Value → String
  | nil => "nil"
  | bool b => if b then "true" else "false"
  | int n => toString n.toInt
  | float x => Decimal.fractionalText x
  | string s => s
  | .instance _ cls => "<" ++ cls.name ++ " instance>"
  | .class cls => "<class " ++ cls.name ++ ">"
  | closure fn => "<fn " ++ fn.declaration.title ++ ">"
  | nativeClass cls => cls.text
  | nativeFunction fn => fn.text
  | boundMethod _ receiver method =>
    "<native method " ++ receiver.typeName ++ "." ++ method.name ++ ">"
  | v => "<" ++ v.typeName ++ ">"

/-- Whether two values are the same one: numbers, texts and truth values by content, with a
not-a-number different from itself, everything else by identity. -/
def same : Value → Value → Bool
  | nil, nil => true
  | bool a, bool b => a == b
  | int a, int b => a == b
  | float a, float b => a == b
  | string a, string b => a == b
  | list a, list b => a == b
  | map a, map b => a == b
  | iterator a, iterator b => a == b
  | .instance a _, .instance b _ => a == b
  | pair a .., pair b .. => a == b
  | varargs a _, varargs b _ => a == b
  | iteratorResult a .., iteratorResult b .. => a == b
  | .class a, .class b => a.id == b.id
  | closure a, closure b => a.id == b.id
  | nativeClass a, nativeClass b => a == b
  | nativeFunction a, nativeFunction b => a == b
  | boundMethod a .., boundMethod b .. => a == b
  | _, _ => false

/-- The value of a constant. -/
def ofLiteral : Literal → Value
  | .nil => nil
  | .bool b => bool b
  | .int n => int n
  | .float x => float x
  | .string s => string s

/-- The parameters a value is called with, if it can be called. -/
def params? : Value → Option (List Param)
  | .class cls => some cls.params
  | closure fn => some fn.declaration.params
  | nativeClass cls => some cls.params
  | nativeFunction fn => some fn.params
  | boundMethod _ _ method => some method.params
  | _ => none

end Value

end ClassScript
