import ClassScript.Call.Arity

/-!
# The native library

The classes and functions that every program starts with: their names, their inheritance, the
signatures of their members and constructors. What the members do is defined with the machine.
-/

namespace ClassScript

/-- A native class. -/
inductive NativeClass where
  | object | nil | bool | number | int | float | string | list | map | pair | varargs | iterator
  | iteratorResult
deriving DecidableEq, Inhabited

/-- A native function. -/
inductive NativeFunction where
  | print | clock | typeOf
deriving DecidableEq

/-- The binary operations of numbers. -/
inductive Arithmetic where
  | add | subtract | multiply | divide | modulo
deriving DecidableEq

/-- What a native method does. -/
inductive Operation where
  | objectEquals | objectIsTrue | objectIsNotTrue | objectToString | objectInit
  | nilIsTrue | nilToString
  | boolIsTrue | boolIsNotTrue | boolEquals | boolToString
  | intArithmetic (op : Arithmetic) | intNegate | intGreaterThan | intEquals | intIsTrue
  | intToFloat | intToString | intIterate
  | floatArithmetic (op : Arithmetic) | floatNegate | floatGreaterThan | floatEquals | floatIsTrue
  | floatFloor | floatToInt | floatToString
  | stringAdd | stringLength | stringGet | stringContains | stringSplit | stringUpper | stringLower
  | stringEquals | stringGreaterThan | stringIsTrue | stringToString | stringIterate
  | listAdd | listGet | listSet | listLength | listPop | listContains | listEquals | listIterate
  | listToString
  | varargsLength | varargsGet | varargsIterate | varargsToList | varargsToString
  | mapSet | mapGet | mapHas | mapRemove | mapLength | mapKeys | mapIterate | mapToString
  | pairToString
  | iteratorNext | iteratorIterate
deriving DecidableEq

/-- A native method with its signature. -/
structure NativeMethod where
  /-- The name. -/
  name : String
  /-- The parameters. -/
  params : List Param
  /-- The class of the result. -/
  returns : String
  /-- What the method does. -/
  operation : Operation
  /-- The class of the result where the class of the first argument decides it. -/
  returnsByArg : List (String × String) := []

/-- What a native property reads. -/
inductive Reading where
  | pairFirst | pairSecond | resultValue | resultIsEnd
deriving DecidableEq

/-- A native property with the class of its value. -/
structure NativeProperty where
  /-- The name. -/
  name : String
  /-- The class of the value. -/
  returns : String
  /-- What the property reads. -/
  reading : Reading

namespace Arithmetic

/-- All operations. -/
def all : List Arithmetic := [add, subtract, multiply, divide, modulo]

/-- The name of the method. -/
def name : Arithmetic → String
  | add => "add"
  | subtract => "subtract"
  | multiply => "multiply"
  | divide => "divide"
  | modulo => "modulo"

end Arithmetic

namespace NativeFunction

/-- All functions, in the order they are defined. -/
def all : List NativeFunction := [print, clock, typeOf]

/-- The name. -/
def name : NativeFunction → String
  | print => "print"
  | clock => "clock"
  | typeOf => "typeOf"

/-- The parameters. -/
def params : NativeFunction → List Param
  | print => [.rest "Object" "values"]
  | clock => []
  | typeOf => [.required "Object" "value"]

/-- The class of the result. -/
def returns : NativeFunction → String
  | print => "Nil"
  | clock => "Float"
  | typeOf => "String"

/-- The function as a text. -/
def text (f : NativeFunction) : String := "<native fn " ++ f.name ++ ">"

end NativeFunction

/-- A method without parameters. -/
def NativeMethod.nullary (name returns : String) (operation : Operation) : NativeMethod :=
  { name, params := [], returns, operation }

/-- A method with one parameter. -/
def NativeMethod.unary (name type param returns : String) (operation : Operation) : NativeMethod :=
  { name, params := [.required type param], returns, operation }

namespace NativeClass

/-- All classes, in the order they are defined. -/
def all : List NativeClass :=
  [object, nil, bool, number, int, float, string, list, map, pair, varargs, iterator,
   iteratorResult]

/-- The name. -/
def name : NativeClass → String
  | object => "Object"
  | nil => "Nil"
  | bool => "Bool"
  | number => "Number"
  | int => "Int"
  | float => "Float"
  | string => "String"
  | list => "List"
  | map => "Map"
  | pair => "Pair"
  | varargs => "Varargs"
  | iterator => "Iterator"
  | iteratorResult => "IteratorResult"

/-- The class as a text. -/
def text (c : NativeClass) : String := "<class " ++ c.name ++ ">"

/-- The superclass, if there is one. -/
def parent? : NativeClass → Option NativeClass
  | int | float => some number
  | _ => none

/-- Whether a class is another one or inherits from it. -/
def isSubclassOf (c other : NativeClass) : Bool := c = other || c.parent? = some other

/-- The class of the elements that iteration yields. -/
def elements : NativeClass → String
  | int => "Int"
  | string => "String"
  | map => "Pair"
  | _ => "Object"

/-- The parameters of the constructor, if the class has one. -/
def constructor? : NativeClass → Option (List Param)
  | list => some [.rest "Object" "items"]
  | map => some []
  | pair => some [.required "Object" "first", .required "Object" "second"]
  | iteratorResult => some [.required "Object" "value", .required "Bool" "isEnd"]
  | _ => none

/-- The parameters a class is called with. -/
def params (c : NativeClass) : List Param := c.constructor?.getD []

open NativeMethod (nullary unary)

/-- The methods a class declares itself. -/
def methods : NativeClass → List NativeMethod
  | object =>
    [unary "equals" "Object" "other" "Bool" .objectEquals,
     nullary "isTrue" "Bool" .objectIsTrue,
     nullary "isNotTrue" "Bool" .objectIsNotTrue,
     nullary "toString" "String" .objectToString,
     nullary "init" "Nil" .objectInit]
  | nil =>
    [nullary "isTrue" "Bool" .nilIsTrue,
     nullary "toString" "String" .nilToString]
  | bool =>
    [nullary "isTrue" "Bool" .boolIsTrue,
     nullary "isNotTrue" "Bool" .boolIsNotTrue,
     unary "equals" "Object" "other" "Bool" .boolEquals,
     nullary "toString" "String" .boolToString]
  | number => []
  | int =>
    (Arithmetic.all.map fun op =>
      { unary op.name "Number" "other" "Int" (.intArithmetic op) with
        returnsByArg := [("Float", "Float")] }) ++
    [nullary "negate" "Int" .intNegate,
     unary "greaterThan" "Number" "other" "Bool" .intGreaterThan,
     unary "equals" "Object" "other" "Bool" .intEquals,
     nullary "isTrue" "Bool" .intIsTrue,
     nullary "toFloat" "Float" .intToFloat,
     nullary "toString" "String" .intToString,
     nullary "iterate" "Iterator" .intIterate]
  | float =>
    (Arithmetic.all.map fun op =>
      unary op.name "Number" "other" "Float" (.floatArithmetic op)) ++
    [nullary "negate" "Float" .floatNegate,
     unary "greaterThan" "Number" "other" "Bool" .floatGreaterThan,
     unary "equals" "Object" "other" "Bool" .floatEquals,
     nullary "isTrue" "Bool" .floatIsTrue,
     nullary "floor" "Float" .floatFloor,
     nullary "toInt" "Int" .floatToInt,
     nullary "toString" "String" .floatToString]
  | string =>
    [unary "add" "String" "other" "String" .stringAdd,
     nullary "length" "Int" .stringLength,
     unary "get" "Int" "index" "String" .stringGet,
     unary "contains" "String" "part" "Bool" .stringContains,
     unary "split" "String" "separator" "List" .stringSplit,
     nullary "upper" "String" .stringUpper,
     nullary "lower" "String" .stringLower,
     unary "equals" "Object" "other" "Bool" .stringEquals,
     unary "greaterThan" "String" "other" "Bool" .stringGreaterThan,
     nullary "isTrue" "Bool" .stringIsTrue,
     nullary "toString" "String" .stringToString,
     nullary "iterate" "Iterator" .stringIterate]
  | list =>
    [unary "add" "Object" "item" "Nil" .listAdd,
     unary "get" "Int" "index" "Object" .listGet,
     { name := "set", params := [.required "Int" "index", .required "Object" "item"],
       returns := "Nil", operation := .listSet },
     nullary "length" "Int" .listLength,
     nullary "pop" "Object" .listPop,
     unary "contains" "Object" "item" "Bool" .listContains,
     unary "equals" "Object" "other" "Bool" .listEquals,
     nullary "iterate" "Iterator" .listIterate,
     nullary "toString" "String" .listToString]
  | varargs =>
    [nullary "length" "Int" .varargsLength,
     unary "get" "Int" "index" "Object" .varargsGet,
     nullary "iterate" "Iterator" .varargsIterate,
     nullary "toList" "List" .varargsToList,
     nullary "toString" "String" .varargsToString]
  | map =>
    [{ name := "set", params := [.required "Object" "key", .required "Object" "value"],
       returns := "Nil", operation := .mapSet },
     unary "get" "Object" "key" "Object" .mapGet,
     unary "has" "Object" "key" "Bool" .mapHas,
     unary "remove" "Object" "key" "Object" .mapRemove,
     nullary "length" "Int" .mapLength,
     nullary "keys" "List" .mapKeys,
     nullary "iterate" "Iterator" .mapIterate,
     nullary "toString" "String" .mapToString]
  | pair => [nullary "toString" "String" .pairToString]
  | iterator =>
    [nullary "next" "IteratorResult" .iteratorNext,
     nullary "iterate" "Iterator" .iteratorIterate]
  | iteratorResult => []

/-- The properties a class declares itself. -/
def properties : NativeClass → List NativeProperty
  | pair => [⟨"first", "Object", .pairFirst⟩, ⟨"second", "Object", .pairSecond⟩]
  | iteratorResult => [⟨"value", "Object", .resultValue⟩, ⟨"isEnd", "Bool", .resultIsEnd⟩]
  | _ => []

/-- The method of a name that a class declares itself. -/
def ownMethod? (c : NativeClass) (name : String) : Option NativeMethod :=
  c.methods.find? (·.name = name)

/-- The property of a name that a class declares itself. -/
def ownProperty? (c : NativeClass) (name : String) : Option NativeProperty :=
  c.properties.find? (·.name = name)

/-- The method of a name: a class's own, its superclass's, or that of every object. -/
def method? (c : NativeClass) (name : String) : Option NativeMethod :=
  c.ownMethod? name <|> c.parent?.bind (·.ownMethod? name) <|> object.ownMethod? name

/-- The property of a name: a class's own or its superclass's. -/
def property? (c : NativeClass) (name : String) : Option NativeProperty :=
  c.ownProperty? name <|> c.parent?.bind (·.ownProperty? name)

/-- The class of a name. -/
def ofName? (name : String) : Option NativeClass := all.find? (·.name = name)

end NativeClass

end ClassScript
