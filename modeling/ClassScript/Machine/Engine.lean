import ClassScript.Machine.Exec

/-!
# Messages

Reading members and sending messages. An engine stands for the machine's own execution, one level
further down: evaluating an expression, executing a statement and calling a value. Everything
else that runs a program's code is built from these three.
-/

namespace ClassScript

/-- How a statement ends. -/
inductive Completion where
  /-- The next statement follows. -/
  | normal
  /-- The enclosing function is left with a result. -/
  | returning (v : Value)

/-- A machine's own execution. -/
structure Engine where
  /-- The bound on the rounds of a loop. -/
  fuel : Nat
  /-- Evaluates an expression. -/
  evaluate : Expr → Exec Value
  /-- Executes a statement. -/
  execute : Stmt → Exec Completion
  /-- Calls a value, at a site, with positional and named arguments. -/
  invoke : Token → Value → List Value → List (String × Value) → Exec Value

/-- A method with its receiver: a function whose scope is a new one that holds the receiver. -/
def Closure.bind (fn : Closure) (receiver : Value) : Exec Closure := do
  let origin ← Exec.read fun s =>
    match s.environments.table[fn.scope]?.map (·.origin) with
    | some (.supers id) => Scope.Origin.receiver id
    | _ => .receiver fn.declaration.id
  let scope ← Exec.newScope origin fn.scope
  Exec.define scope "self" receiver
  return { fn with id := ← Exec.freshId, scope }

/-- A native method with its receiver. -/
def NativeMethod.bind (method : NativeMethod) (receiver : Value) : Exec Value :=
  return .boundMethod (← Exec.freshId) receiver method

/-- The value of a native property, if the value has it. -/
def Reading.get? : Reading → Value → Option Value
  | .pairFirst, .pair _ first _ => some first
  | .pairSecond, .pair _ _ second => some second
  | .resultValue, .iteratorResult _ value _ => some value
  | .resultIsEnd, .iteratorResult _ _ isEnd => some (.bool isEnd)
  | _, _ => none

/-- A method that every object has. -/
def objectMember (site : Token) (v : Value) (name : String) : Exec Value :=
  match NativeClass.object.ownMethod? name with
  | some m => m.bind v
  | none => Exec.raiseAt site (.undefinedProperty name)

/-- A member of a value: a field, a method of its class with the value as its receiver, a native
property, or a method that every object has. -/
def member (site : Token) (v : Value) (name : String) : Exec Value := do
  match v with
  | .instance place cls =>
    match (← Exec.read (·.fields[place]?)).bind (·[name]?) with
    | some field => return field
    | none =>
      match cls.lookup name with
      | .found m _ => return .closure (← m.bind v)
      | .ambiguous branches => Exec.raiseAt site (.ambiguous name branches)
      | .absent => objectMember site v name
  | _ =>
    match v.nativeClass? with
    | none => objectMember site v name
    | some c =>
      match c.method? name with
      | some m => m.bind v
      | none =>
        match (c.property? name).bind (·.reading.get? v) with
        | some p => return p
        | none => Exec.raiseAt site (.undefinedProperty name)

namespace Engine

variable (eng : Engine)

/-- Sends a message with positional arguments. -/
def send (site : Token) (receiver : Value) (name : String) (args : List Value) : Exec Value := do
  let method ← member site receiver name
  eng.invoke site method args []

/-- Asks a value whether it is true. -/
def truthy (v : Value) : Exec Bool := do
  match v with
  | .bool b => return b
  | _ =>
    let site := (← get).site
    match ← eng.send site v "isTrue" [] with
    | .bool b => return b
    | r => Exec.raiseAt site (.badReply "isTrue" r.typeName)

/-- Asks a value whether it equals another one. -/
def equal (a b : Value) : Exec Bool := do
  eng.truthy (← eng.send (← get).site a "equals" [b])

/-- Asks a value for its text. -/
def stringify (v : Value) : Exec String := do
  match v with
  | .string s => return s
  | _ =>
    let site := (← get).site
    match ← eng.send site v "toString" [] with
    | .string s => return s
    | r => Exec.raiseAt site (.badReply "toString" r.typeName)

/-- Asks a value whether it is true, for a branch at a token. -/
def condition (token : Token) (v : Value) : Exec Bool :=
  Exec.atSite token (Exec.located token (eng.truthy v))

/-- The texts of values. -/
def stringifyAll : List Value → Exec (List String)
  | [] => return []
  | v :: rest => do
    let s ← eng.stringify v
    return s :: (← stringifyAll rest)

end Engine

end ClassScript
