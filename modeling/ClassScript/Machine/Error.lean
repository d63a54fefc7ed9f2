import ClassScript.Call.Arguments
import ClassScript.Hierarchy

/-!
# Run-time errors

What can go wrong while a program runs, and the words for it. An error has a place from the
moment it leaves the call that caused it, and keeps it from then on.
-/

namespace ClassScript

/-- What can go wrong while a program runs. -/
inductive Cause where
  /-- A variable has no value. -/
  | undefinedVariable (name : String)
  /-- A value has no such member. -/
  | undefinedProperty (name : String)
  /-- No superclass has such a method. -/
  | undefinedSuper (name : String)
  /-- A value that is neither a function nor a class is called. -/
  | notCallable
  /-- The arguments of a call do not match the parameters. -/
  | mismatch (m : Mismatch)
  /-- A method is inherited in several ways. -/
  | ambiguous (name : String) (branches : List String)
  /-- Calls are nested too deeply. -/
  | stackOverflow
  /-- A superclass is not a class of the program. -/
  | notSuperclass
  /-- A value without an iteration is iterated over. -/
  | notIterable (typeName : String)
  /-- A field of a value without fields is set. -/
  | noFields
  /-- A superclass method is used where there are no superclasses. -/
  | superHere
  /-- A superclass method without a name is used outside of every method. -/
  | superName
  /-- A number is divided by zero. -/
  | divisionByZero
  /-- An index is not below a length. -/
  | indexOutOfRange (index : Int) (length : Nat)
  /-- An argument of a native method is of the wrong class. -/
  | wrongArgument (method want got : String)
  /-- A map has no such key. -/
  | keyNotFound (key : String)
  /-- An item is taken from an empty list. -/
  | emptyList
  /-- A native class without a constructor is called. -/
  | notInstantiable (name : String)
  /-- A method that the language relies on answers a value of the wrong class. -/
  | badReply (method typeName : String)
  /-- Nothing can be printed. -/
  | brokenOutput (reason : String)

/-- The cause of an error in words. -/
def Cause.message : Cause → String
  | undefinedVariable name => "Undefined variable '" ++ name ++ "'."
  | undefinedProperty name => "Undefined property '" ++ name ++ "'."
  | undefinedSuper name => "Undefined property '" ++ name ++ "' on superclass."
  | notCallable => "Can only call functions and classes."
  | mismatch m => m.message
  | ambiguous name branches => Lookup.ambiguityText name branches
  | stackOverflow => "Stack overflow."
  | notSuperclass => "Superclass must be a class."
  | notIterable typeName => "Value of class " ++ typeName ++ " is not iterable."
  | noFields => "Only instances have fields."
  | superHere => "Can't use 'super' here."
  | superName => "Can't infer the method for 'super' here."
  | divisionByZero => "division by zero"
  | indexOutOfRange index length =>
    s!"index out of range: {index} not in 0..{(length : Int) - 1}"
  | wrongArgument method want got =>
    "wrong argument class: " ++ method ++ " expects " ++ want ++ ", got " ++ got
  | keyNotFound key => "key not found: " ++ key
  | emptyList => "empty list"
  | notInstantiable name => "class cannot be instantiated: " ++ name
  | badReply method typeName =>
    "protocol method returned the wrong class: " ++ method ++ " answered " ++ typeName
  | brokenOutput reason => "print: " ++ reason

/-- An error with its place. -/
structure RuntimeError where
  /-- The place. -/
  token : Token
  /-- What went wrong. -/
  cause : Cause

namespace RuntimeError

/-- The text of an error with a message and a line. -/
def textAt (message : String) (line : Int) : String := s!"{message}\n[line {line}]"

/-- The error as a text. -/
def text (e : RuntimeError) : String := textAt e.cause.message e.token.line

end RuntimeError

/-- Why an execution was left early. -/
inductive Interrupt where
  /-- An error without a place yet. -/
  | raised (cause : Cause)
  /-- An error with its place. -/
  | located (error : RuntimeError)
  /-- The machine did something that has no meaning. -/
  | fault
  /-- The bound on the execution was used up. -/
  | exhausted

/-- Gives an error a place, unless it has one. -/
def Interrupt.locate (site : Token) : Interrupt → Interrupt
  | raised cause => located ⟨site, cause⟩
  | other => other

/-- The text of a variable that no scope binds. -/
def unboundText (name : String) : String := "undefined variable '" ++ name ++ "'"

end ClassScript
