import ClassScript.Machine.Native.Operation

/-!
# Calls

Calling functions, classes and native code. Arguments are matched to the parameters first; an
omitted parameter takes its default, evaluated in the scope around the function when the function
is called.
-/

namespace ClassScript

open Exec (raise raiseAt fault)

namespace Engine

variable (eng : Engine)

/-- Executes statements up to the first one that leaves the enclosing function. -/
def executeAll : List Stmt → Exec Completion
  | [] => return .normal
  | s :: rest => do
    match ← eng.execute s with
    | .normal => executeAll rest
    | c => return c

/-- Executes statements in a scope. -/
def executeIn (scope : ScopeId) (body : List Stmt) : Exec Completion :=
  Exec.inScope scope (eng.executeAll body)

/-- The value of an argument that was matched to a parameter. -/
def argument (scope : ScopeId) (p : Param) : Slot Value → Exec Value
  | .given v => return v
  | .collected vs => return .varargs (← Exec.freshId) vs
  | .omitted =>
    match p.defaultValue with
    | some e => Exec.inScope scope (eng.evaluate e)
    | none => fault

/-- Binds parameters to their arguments. -/
def bindParams (fn : Closure) (scope : ScopeId) : List (Param × Slot Value) → Exec Unit
  | [] => return
  | (p, slot) :: rest => do
    Exec.define scope p.name.lexeme (← eng.argument fn.scope p slot)
    bindParams fn scope rest

/-- Runs the body of a function in a new scope with the parameters. -/
def callClosure (fn : Closure) (site : Token) (slots : List (Slot Value)) : Exec Value := do
  -- The limit is tested before the frame is made, so a refused call leaves no frame behind.
  if (← get).maxDepth ≤ (← get).calls.depth then raiseAt site .stackOverflow
  else Exec.inFrame ⟨fn.home⟩ do
    let scope ← Exec.newScope (.call fn.declaration.id) fn.scope
    eng.bindParams fn scope (fn.declaration.params.zip slots)
    let completion ← eng.executeIn scope fn.declaration.body
    -- An initializer answers its receiver, whatever its body returns. The receiver is bound in the
    -- scope right around the body.
    if fn.isInitializer then
      match (← Exec.read (·.environments.getAt? fn.scope 0 "self")) with
      | some self => return self
      | none => fault
    else
      match completion with
      | .returning v => return v
      | .normal => return .nil

/-- Makes an object of a class and runs its initializer, if it has one. -/
def instantiate (cls : Class) (site : Token) (slots : List (Slot Value)) : Exec Value := do
  let place ← Exec.allocate fun s =>
    let place := s.fields.size
    ({ s with fields := s.fields.push ∅ }, place)
  let self := Value.instance place cls
  match cls.lookup "init" with
  | .absent => return self
  | .ambiguous branches => raise (.ambiguous "init" branches)
  | .found init _ =>
    let _ ← eng.callClosure (← init.bind self) site slots
    return self

/-- The arguments of native code, which has no defaults. -/
def nativeArguments : List (Slot Value) → Exec (List Value)
  | [] => return []
  | .given v :: rest => return v :: (← nativeArguments rest)
  | .collected vs :: rest => do
    let v := Value.varargs (← Exec.freshId) vs
    return v :: (← nativeArguments rest)
  | .omitted :: _ => fault

/-- Calls a value with arguments that were matched to its parameters. -/
def apply (callee : Value) (site : Token) (slots : List (Slot Value)) : Exec Value := do
  match callee with
  | .closure fn => eng.callClosure fn site slots
  | .class cls => eng.instantiate cls site slots
  | .nativeClass cls =>
    match cls.constructor? with
    | none => raise (.notInstantiable cls.name)
    | some _ => construct cls (← nativeArguments slots)
  | .nativeFunction fn => eng.runFunction fn (← nativeArguments slots)
  | .boundMethod _ receiver method =>
    eng.run method.operation receiver (← nativeArguments slots)
  | _ => fault

/-- Calls a value: it has to be callable and the arguments have to match its parameters. -/
def invokeWith (site : Token) (callee : Value) (positional : List Value)
    (named : List (String × Value)) : Exec Value := do
  match callee.params? with
  | none => raiseAt site .notCallable
  | some params =>
    match Slot.ofCall params positional named with
    | .error m => raiseAt site (.mismatch m)
    | .ok slots => Exec.located site (Exec.atSite site (eng.apply callee site slots))

end Engine

end ClassScript
