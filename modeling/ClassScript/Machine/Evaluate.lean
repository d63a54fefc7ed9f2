import ClassScript.Machine.Call

/-!
# Execution

Evaluating expressions and executing statements. Operators are messages to the left operand; the
comparisons other than `>` and `==` are made of these two. A bound on the nesting makes every
execution end.
-/

namespace ClassScript

open Exec (raiseAt fault)

/-- The message an operator sends, if it sends one itself. -/
def operatorMethod? : Token.Kind → Option String
  | .plus => some "add"
  | .minus => some "subtract"
  | .star => some "multiply"
  | .slash => some "divide"
  | .percent => some "modulo"
  | .equalEqual => some "equals"
  | .greater => some "greaterThan"
  | _ => none

/-- The value of a variable: a local one at its distance, a global one by its name. -/
def lookUpVariable (token : Token) (name : String) (id : NodeId) : Exec Value := do
  let m ← get
  let found := match m.distances[id]? with
    | some d => m.store.environments.getAt? m.scope d name
    | none => m.store.environments.get? globalScope name
  match found with
  | some v => return v
  | none => raiseAt token (.undefinedVariable name)

/-- Gives a variable a value; a name that no scope binds becomes a global one. -/
def assignVariable (name : String) (id : NodeId) (v : Value) : Exec Unit :=
  modify fun m =>
    match m.distances[id]? with
    | some d =>
      { m with store.environments := m.store.environments.assignAt m.scope d name v }
    | none => { m with store.environments := m.store.environments.assign globalScope name v }

/-- A new function in the current scope. It refers to the same method as the call it is made
in. -/
def newClosure (fn : Lambda) : Exec Value := do
  return .closure
    { id := ← Exec.freshId, declaration := fn, scope := (← get).scope, home := ← Exec.home,
      isInitializer := false }

/-- A method of the superclasses, with the receiver of the enclosing method. -/
def evaluateSuper (id : NodeId) (keyword : Token) (method : Option Token) : Exec Value := do
  let m ← get
  match m.distances[id]? with
  | none => raiseAt keyword .superHere
  | some d =>
    match m.store.environments.getAt? m.scope d "super" with
    | some (.superclasses supers) =>
      let name := (method.map Token.lexeme).getD (← Exec.home)
      if name = "" then raiseAt keyword .superName
      else
        -- The scope of the receiver is made inside that of the superclasses.
        match m.store.environments.getAt? m.scope (d - 1) "self" with
        | none => fault
        | some self =>
          match Class.hierarchy.lookupSupers name supers with
          | .found fn _ => return .closure (← fn.bind self)
          | .ambiguous branches => raiseAt keyword (.ambiguous name branches)
          | .absent =>
            match NativeClass.object.ownMethod? name with
            | some nm => nm.bind self
            | none => raiseAt keyword (.undefinedSuper name)
    | _ => raiseAt keyword .superHere

namespace Engine

variable (eng : Engine)

/-- Evaluates expressions from left to right. -/
def evaluateAll : List Expr → Exec (List Value)
  | [] => return []
  | e :: rest => do
    let v ← eng.evaluate e
    return v :: (← evaluateAll rest)

/-- Evaluates named arguments from left to right. -/
def evaluateNamed : List NamedArg → Exec (List (String × Value))
  | [] => return []
  | a :: rest => do
    let v ← eng.evaluate a.value
    return (a.name.lexeme, v) :: (← evaluateNamed rest)

/-- An operator between two values. -/
def operate (op : Token) (left right : Value) : Exec Value := do
  match operatorMethod? op.kind with
  | some method => eng.send op left method [right]
  | none =>
    match op.kind with
    | .bangEqual =>
      let eq ← eng.send op left "equals" [right]
      eng.send op eq "isNotTrue" []
    | .lessEqual =>
      let greater ← eng.condition op (← eng.send op left "greaterThan" [right])
      return .bool !greater
    | .greaterEqual =>
      if ← eng.condition op (← eng.send op left "greaterThan" [right]) then return .bool true
      else return .bool (← eng.condition op (← eng.send op left "equals" [right]))
    | .less =>
      if ← eng.condition op (← eng.send op left "greaterThan" [right]) then return .bool false
      else return .bool !(← eng.condition op (← eng.send op left "equals" [right]))
    | _ => fault

/-- Evaluates an expression. -/
def evaluateWith : Expr → Exec Value
  | .literal _ _ value => return .ofLiteral value
  | .group _ _ inner => eng.evaluate inner
  | .list _ _ elements => do Exec.newList (← eng.evaluateAll elements)
  | .var use => lookUpVariable use.name use.name.lexeme use.id
  | .self id keyword => lookUpVariable keyword "self" id
  | .assign id name value => do
    let v ← eng.evaluate value
    assignVariable name.lexeme id v
    return v
  | .super id keyword method => evaluateSuper id keyword method
  | .unary _ op right => do
    let v ← eng.evaluate right
    eng.send op v (if op.kind = .minus then "negate" else "isNotTrue") []
  | .binary _ left op right => do
    let l ← eng.evaluate left
    let r ← eng.evaluate right
    eng.operate op l r
  | .logical _ left op right => do
    let l ← eng.evaluate left
    let t ← eng.condition op l
    -- A true left operand settles a disjunction, and a false one a conjunction.
    if (op.kind = .orWord : Bool) = t then return l else eng.evaluate right
  | .call _ callee paren args named => do
    let fn ← eng.evaluate callee
    let positional ← eng.evaluateAll args
    let byName ← eng.evaluateNamed named
    eng.invoke paren fn positional byName
  | .get _ object name => do member name (← eng.evaluate object) name.lexeme
  | .set _ object name value => do
    match ← eng.evaluate object with
    -- The value is evaluated only if there is an object to keep it.
    | .instance place _ =>
      let v ← eng.evaluate value
      Exec.update fun s => { s with fields := s.fields.modify place (·.insert name.lexeme v) }
      return v
    | _ => raiseAt name .noFields
  | .lambda fn => newClosure fn

/-- The superclasses of a class. -/
def evaluateSupers : List NameUse → Exec (List Class)
  | [] => return []
  | use :: rest => do
    match ← eng.evaluate (.var use) with
    | .class cls => return cls :: (← evaluateSupers rest)
    | _ => raiseAt use.name .notSuperclass

/-- The methods of a class, the latest declaration of a name first. -/
def newMethods (scope : ScopeId) : List Lambda → List (String × Closure) →
    Exec (List (String × Closure))
  | [], methods => return methods
  | fn :: rest, methods => do
    let closure : Closure :=
      { id := ← Exec.freshId, declaration := fn, scope, home := fn.title,
        isInitializer := fn.title = "init" }
    newMethods scope rest ((fn.title, closure) :: methods)

/-- Makes a class. Its methods see a scope with the superclasses. -/
def executeClass (id : NodeId) (name : Token) (supers : List NameUse) (methods : List Lambda) :
    Exec Unit := do
  let classes ← eng.evaluateSupers supers
  let scope ← Exec.newScope (.supers id) (← get).scope
  Exec.define scope "super" (.superclasses classes)
  let methods ← newMethods scope methods []
  let cls : Class := { id := ← Exec.freshId, name := name.lexeme, supers := classes, methods }
  Exec.defineHere name.lexeme (.class cls)

/-- Goes through the rounds of a loop with a condition. -/
def loopWhile (keyword : Token) (test : Expr) (body : Block) : Nat → Exec Completion
  | 0 => throw .exhausted
  | fuel + 1 => do
    if ← eng.condition keyword (← eng.evaluate test) then
      match ← eng.execute (.block body) with
      | .normal => loopWhile keyword test body fuel
      | c => return c
    else return .normal

/-- Goes through the rounds of a loop over elements; every round has a scope of its own. -/
def loopFor (id : NodeId) (keyword name : Token) (iterator : Value) (body : Block) :
    Nat → Exec Completion
  | 0 => throw .exhausted
  | fuel + 1 => do
    let result ← eng.send keyword iterator "next" []
    -- At the end there is no value to read.
    let isEnd ← member keyword result "isEnd"
    if ← eng.condition keyword isEnd then return .normal
    else
      let value ← member keyword result "value"
      let scope ← Exec.newScope (.loop id) (← get).scope
      Exec.define scope name.lexeme value
      match ← eng.executeIn scope [.block body] with
      | .normal => loopFor id keyword name iterator body fuel
      | c => return c

/-- Executes a statement. -/
def executeWith : Stmt → Exec Completion
  | .expr _ value => do
    let _ ← eng.evaluate value
    return .normal
  | .varDecl _ name initial => do
    let v ← match initial with
      | some e => eng.evaluate e
      | none => pure .nil
    Exec.defineHere name.lexeme v
    return .normal
  | .function _ fn => do
    Exec.defineHere fn.title (← newClosure fn)
    return .normal
  | .classDecl id name supers methods => do
    eng.executeClass id name supers methods
    return .normal
  | .block b => do
    let scope ← Exec.newScope (.block b.id) (← get).scope
    eng.executeIn scope b.body
  | .ifElse _ keyword test body otherwise => do
    if ← eng.condition keyword (← eng.evaluate test) then eng.execute (.block body)
    else
      match otherwise with
      | some s => eng.execute s
      | none => return .normal
  | .whileLoop _ keyword test body => eng.loopWhile keyword test body eng.fuel
  | .forIn id keyword name iterable body => do
    let v ← eng.evaluate iterable
    -- Whatever is wrong with the member, the loop speaks of the value.
    let iterate ← (member keyword v "iterate").orRaise ⟨keyword, .notIterable v.typeName⟩
    let iterator ← eng.invoke keyword iterate [] []
    eng.loopFor id keyword name iterator body eng.fuel
  | .ret _ _ value => do
    match value with
    | some e => return .returning (← eng.evaluate e)
    | none => return .returning .nil

end Engine

/-- The machine's execution, down to a number of levels. -/
def engine : Nat → Engine
  | 0 =>
    { fuel := 0
      evaluate := fun _ => throw .exhausted
      execute := fun _ => throw .exhausted
      invoke := fun _ _ _ _ => throw .exhausted }
  | levels + 1 =>
    { fuel := levels
      evaluate := fun e => (engine levels).evaluateWith e
      execute := fun s => (engine levels).executeWith s
      invoke := fun site callee positional named =>
        (engine levels).invokeWith site callee positional named }

/-- The levels and rounds that an execution is given where nothing else is said. -/
def defaultFuel : Nat := 1 <<< 40

end ClassScript
