import ClassScript.Call.Arguments
import ClassScript.Typing.Member

/-!
# Checking programs

Gives every node a type and stops at the first use that could not succeed when the program runs.
A program that is rejected never runs, so the global names, and the fields of the global classes,
are put back to what they were.
-/

namespace ClassScript.Typing

/-- What can be wrong with the types of a program; types are given by their texts. -/
inductive Fault where
  /-- A declared type is no class. -/
  | unknownType (name : String)
  /-- A superclass is not a class of the program. -/
  | notSuperclass
  /-- An object of a class without an iteration is iterated over. -/
  | classNotIterable (name : String)
  /-- A class or function is iterated over. -/
  | notIterable (type : String)
  /-- A member is inherited in several ways. -/
  | ambiguous (name : String) (branches : List String)
  /-- The default of a parameter is not of its type. -/
  | badDefault (param want got : String)
  /-- The results of a function have no common type. -/
  | multipleReturns (function first second : String)
  /-- A value has no such member. -/
  | undefinedProperty (name type : String)
  /-- No superclass has such a method. -/
  | undefinedSuper (name : String)
  /-- A field of a value without fields is set. -/
  | noFields
  /-- A field gets a value of an unrelated type. -/
  | redefinedAttribute (old new : String)
  /-- A variable gets a value of an unrelated type. -/
  | redefinedVariable (old new : String)
  /-- A value that is neither a function nor a class is called. -/
  | notCallable
  /-- A native class without a constructor is called. -/
  | notInstantiable (name : String)
  /-- The arguments of a call do not match the parameters. -/
  | mismatch (m : Mismatch)
  /-- An argument is not of its parameter's type. -/
  | badArgument (want param function got : String)

/-- A fault in words. -/
def Fault.message : Fault → String
  | unknownType name => "Unknown type '" ++ name ++ "'."
  | notSuperclass => "Superclass must be a class."
  | classNotIterable name => "Value of class " ++ name ++ " is not iterable."
  | notIterable type => "Value of " ++ type ++ " is not iterable."
  | ambiguous name branches => Lookup.ambiguityText name branches
  | badDefault param want got =>
    "Default for parameter '" ++ param ++ "' must be " ++ want ++ ", got " ++ got ++ "."
  | multipleReturns function first second =>
    "Function '" ++ function ++ "' has multiple return types: " ++ first ++ " and " ++ second ++ "."
  | undefinedProperty name type => "Undefined property '" ++ name ++ "' on " ++ type ++ "."
  | undefinedSuper name => "Undefined property '" ++ name ++ "' on superclass."
  | noFields => "Only instances have fields."
  | redefinedAttribute old new => "cannot redefine attribute of type " ++ old ++ " to type " ++ new
  | redefinedVariable old new => "cannot redefine variable of type " ++ old ++ " to type " ++ new
  | notCallable => "Can only call functions and classes."
  | notInstantiable name => "Class " ++ name ++ " cannot be instantiated."
  | mismatch m => m.message
  | badArgument want param function got =>
    "Expected " ++ want ++ " for parameter '" ++ param ++ "' of '" ++ function
      ++ "' but got " ++ got
      ++ "."

/-- A fault at a token. -/
structure Error where
  /-- The offending token. -/
  token : Token
  /-- What is wrong. -/
  fault : Fault

/-- The text of an error with a message and a line. -/
def Error.textAt (message : String) (line : Int) : String := s!"line {line}: {message}"

/-- Why a check was left early. -/
inductive Stop where
  /-- The program is rejected. -/
  | rejected (error : Error)
  /-- A comparison or a text of types has no end. -/
  | endless
  /-- The checker did something that has no meaning. -/
  | fault

/-- A step of a check. What it did to the state stays done when it stops early. -/
abbrev Check := EStateM Stop Checker

namespace Check

/-- Rejects the program. -/
def reject {α : Type} (token : Token) (fault : Fault) : Check α := throw (.rejected ⟨token, fault⟩)

/-- The answer to a question that may have none. -/
def answer {α : Type} (question : Checker → Option α) : Check α := do
  match question (← get) with
  | some a => return a
  | none => throw .endless

/-- The text of a type. -/
def text (t : Ty) : Check String := answer (·.typeText? (some t))

/-- Gives a node its type. -/
def record (id : NodeId) (t : Ty) : Check Ty := do
  modify fun s => { s with types := s.types.insert id t }
  return t

/-! ### Names -/

/-- Where a name is bound. -/
inductive Place where
  /-- In the local scope at an index. -/
  | local (index : Nat)
  /-- In the global scope. -/
  | global

/-- Where a name is bound, and its type. -/
def lookup? (s : Checker) (name : String) : Option (Place × Option Ty) :=
  match s.locals.findIdx? fun sc => (sc.vars.lookup name).isSome with
  | some i => some (.local i, (s.locals[i]?.bind (·.vars.lookup name)).join)
  | none => s.globals[name]?.map fun t => (.global, t)

/-- The syntax of the scope at a place. -/
def Place.origin (s : Checker) : Place → Scope.Origin
  | .local i => (s.locals[i]?.map (·.origin)).getD .globals
  | .global => .globals

/-- Notes where the name of a use is found. -/
def noteUse (id : NodeId) (name : String) : Check Unit :=
  modify fun s => { s with found := s.found.insert id ((lookup? s name).map (·.1.origin s)) }

/-- Gives a name a type in a scope. -/
def defineAt (place : Place) (name : String) (t : Option Ty) : Check Unit :=
  modify fun s =>
    match place with
    | .local i =>
      { s with locals := s.locals.modify i fun sc => { sc with vars := (name, t) :: sc.vars } }
    | .global => { s with globals := s.globals.insert name t }

/-- Gives a name a type in the innermost scope. -/
def define (name : String) (t : Option Ty) : Check Unit := do
  defineAt (if (← get).locals.isEmpty then .global else .local 0) name t

/-- Runs a step in a new scope. -/
def inScope {α : Type} (scope : StaticScope) (x : Check α) : Check α := do
  modify fun s => { s with locals := scope :: s.locals }
  let a ← x
  modify fun s => { s with locals := s.locals.tail }
  return a

/-- The type of the objects of a class by its name. -/
def named? (found : Option (Option Ty)) (name : String) : Option Ty :=
  if name = "" || name = "Object" then some objectType
  else match found with
    | some (some (.class c)) => some (.instance c)
    | _ => none

/-- The type that a parameter declares. -/
def declaredType (token : Token) : Check Ty := do
  match named? ((lookup? (← get) token.lexeme).map Prod.snd) token.lexeme with
  | some t => return t
  | none => reject token (.unknownType token.lexeme)

/-- The type of the objects of a global class by its name, or the type of every value. -/
def globalType (s : Checker) (name : String) : Ty := (named? s.globals[name]? name).getD objectType

/-! ### Native signatures -/

/-- A new signature. -/
def newSignature (sig : Signature) : Check SignatureId :=
  modifyGet fun s => (s.signatures.size, { s with signatures := s.signatures.push sig })

/-- The signature of native code, with the classes that its types name at the moment. -/
def nativeSignature (s : Checker) (name : String) (params : List Param) (returns : String) :
    Signature :=
  { name, params
    paramTypes := params.map fun p => globalType s p.type.lexeme
    returns := some (globalType s returns) }

/-- The type of a native method; it is made when the method is used for the first time. -/
def nativeMethod (m : NativeMethod) : Check Ty := do
  let s ← get
  match s.nativeMethods.lookup m.operation with
  | some f => return .function f
  | none =>
    let sig := { nativeSignature s m.name m.params m.returns with
      returnsByArg := m.returnsByArg.map fun (arg, ret) => (arg, globalType s ret) }
    let f ← newSignature sig
    modify fun s => { s with nativeMethods := (m.operation, f) :: s.nativeMethods }
    return .function f

/-! ### Members -/

/-- The type of a method that every object has. -/
def objectMember (t : Ty) (name : Token) : Check Ty := do
  match NativeClass.object.ownMethod? name.lexeme with
  | some m => nativeMethod m
  | none => reject name (.undefinedProperty name.lexeme (← text t))

/-- The type of a member: a field, a method, a native property, or a method that every object
has. -/
def member (t : Ty) (name : Token) : Check Ty := do
  if isObject (some t) then return objectType
  else
    match t with
    | .instance c =>
      -- Natives have methods before properties, and other objects have fields before methods.
      match c.native? with
      | some n =>
        match n.method? name.lexeme with
        | some m => nativeMethod m
        | none =>
          match n.property? name.lexeme with
          | some p => return globalType (← get) p.returns
          | none => objectMember t name
      | none =>
        match (← get).attributes.lookup name.lexeme c with
        | .found a _ => return a
        | .ambiguous branches => reject name (.ambiguous name.lexeme branches)
        | .absent =>
          match (← get).methods.lookup name.lexeme c with
          | .found f _ => return .function f
          | .ambiguous branches => reject name (.ambiguous name.lexeme branches)
          | .absent => objectMember t name
    | _ => objectMember t name

/-- Gives a field of a class's objects a type. -/
def putAttribute (c : ClassType) (name : String) (t : Ty) : Check Unit :=
  modify fun s =>
    { s with bodies := s.bodies.modify c.id fun b =>
        { b with attributes := b.attributes.insert name t } }

/-- A field gets a value: a new field gets its type, and an old one of the same class the more
general type. -/
def setAttribute (t : Ty) (name : Token) (value : Ty) : Check Unit := do
  unless isObject (some t) do
    match t with
    | .instance c =>
      if c.native?.isSome then reject name .noFields
      match (← get).attributes.lookup name.lexeme c with
      | .ambiguous branches => reject name (.ambiguous name.lexeme branches)
      | .absent => putAttribute c name.lexeme value
      | .found existing _ =>
        match ← answer (·.unify? (some existing) (some value)) with
        | none => reject name (.redefinedAttribute (← text existing) (← text value))
        | some u =>
          -- A field that is inherited keeps the type it has there.
          if ((← get).body c).attributes.contains name.lexeme then
            putAttribute c name.lexeme (u.getD existing)
    | _ => reject name .noFields

/-! ### Calls -/

/-- An argument has to be of its parameter's type. -/
def argument (site : Token) (sig : Signature) (p : Nat) (arg : Ty) : Check Unit := do
  match sig.paramTypes[p]?, sig.params[p]? with
  | some want, some param =>
    unless ← answer (·.assignable? (some want) (some arg)) do
      reject site (.badArgument (← text want) param.name.lexeme sig.name (← text arg))
  | _, _ => throw .fault

/-- Positional arguments, from an index on. The answer says which parameters have an argument. -/
def positional (site : Token) (sig : Signature) : Nat → List Ty → List Nat → Check (List Nat)
  | _, [], given => return given
  | i, arg :: rest, given => do
    -- All arguments behind the fixed parameters belong to the variadic one.
    let p := min i (fixedCount sig.params)
    argument site sig p arg
    positional site sig (i + 1) rest (p :: given)

/-- The last parameter of a name. -/
def paramIndex? (params : List Param) (name : String) : Option Nat :=
  (params.zipIdx.filter (·.1.name.lexeme = name)).getLast?.map Prod.snd

/-- Named arguments. The answer says which parameters have an argument. -/
def byName (sig : Signature) : List (Token × Ty) → List Nat → Check (List Nat)
  | [], given => return given
  | (name, arg) :: rest, given => do
    match paramIndex? sig.params name.lexeme with
    | none => reject name (.mismatch (.unknown name.lexeme))
    | some p =>
      if sig.params[p]?.any (·.variadic) then
        reject name (.mismatch (.variadicByName name.lexeme))
      if given.contains p then reject name (.mismatch (.twice name.lexeme))
      argument name sig p arg
      byName sig rest (p :: given)

/-- The arguments of a call have to match the parameters in number, name and type. -/
def arguments (site : Token) (sig : Signature) (args : List Ty) (named : List (Token × Ty)) :
    Check Unit := do
  let arity := Arity.ofParams sig.params
  let count := args.length + named.length
  unless arity.admits count do reject site (.mismatch (.count arity count))
  let given ← byName sig named (← positional site sig 0 args [])
  let fixed := (sig.params.take (fixedCount sig.params)).zipIdx
  match fixed.find? fun (p, i) => !given.contains i && p.defaultValue.isNone with
  | some (p, _) => reject site (.mismatch (.missing p.name.lexeme))
  | none => return

/-- The signature a class is called with. -/
def constructor (site : Token) (c : ClassType) : Check Signature := do
  match c.native? with
  | some n =>
    match n.constructor? with
    | none => reject site (.notInstantiable c.name)
    | some params => return nativeSignature (← get) c.name params c.name
  | none =>
    match (← get).methods.lookup "init" c with
    | .found f _ => return (← get).signature f
    | .ambiguous branches => reject site (.ambiguous "init" branches)
    | .absent =>
      return { name := c.name, params := [], paramTypes := [], returns := some (.instance c) }

/-- The type of a call's result. -/
def callType (site : Token) (callee : Ty) (args : List Ty) (named : List (Token × Ty)) :
    Check Ty := do
  if isObject (some callee) then return objectType
  else
    match callee with
    | .function f =>
      let sig := (← get).signature f
      arguments site sig args named
      -- Arithmetic with a float answers a float, so the result can hang on the first argument.
      let byArg := match args with
        | .instance c :: _ => sig.returnsByArg.lookup c.name
        | _ => none
      return (byArg <|> sig.returns).getD objectType
    | .class c =>
      arguments site (← constructor site c) args named
      return .instance c
    | .instance _ => reject site .notCallable

/-- The type of a message's answer. -/
def send (site : Token) (receiver : Ty) (name : String) (args : List Ty) : Check Ty := do
  let s ← get
  match member receiver { site with lexeme := name } s with
  | .ok m s' =>
    set s'
    callType site m args []
  | .error (.rejected e) s' =>
    -- The member has no token of its own, so the fault is put at the operator.
    set s'
    reject site e.fault
  | .error e s' =>
    set s'
    throw e

/-- The type of a superclass method. The enclosing method is marked as using the superclasses. -/
def superType (keyword : Token) (method : Option Token) : Check Ty := do
  match (← get).context with
  | some { home, method? := enclosing, class? := some c, .. } =>
    if let some f := enclosing then
      modify fun s =>
        { s with signatures := s.signatures.modify f ({ · with callsSuper := true }) }
    let name := (method.map Token.lexeme).getD home
    match (← get).methods.lookupSupers name c.supers with
    | .found f _ => return .function f
    | .ambiguous branches => reject keyword (.ambiguous name branches)
    | .absent =>
      match NativeClass.object.ownMethod? name with
      | some m => nativeMethod m
      | none => reject keyword (.undefinedSuper name)
  | _ => return objectType

/-! ### Pieces of expressions and statements -/

/-- The type of a constant. -/
def literalType : Literal → Ty
  | .nil => builtin .nil
  | .bool _ => builtin .bool
  | .int _ => builtin .int
  | .float _ => builtin .float
  | .string _ => builtin .string

/-- The message that an operator sends. -/
def operatorMethod : Token.Kind → String
  | .plus => "add"
  | .minus => "subtract"
  | .star => "multiply"
  | .slash => "divide"
  | .percent => "modulo"
  | .equalEqual | .bangEqual => "equals"
  | .greater | .greaterEqual | .less | .lessEqual => "greaterThan"
  | _ => ""

/-- Whether an operator answers a truth value whatever its message answers. -/
def answersBool : Token.Kind → Bool
  | .greaterEqual | .less | .lessEqual | .bangEqual => true
  | _ => false

/-- The type of an operator between two values. -/
def binaryType (op : Token) (left right : Ty) : Check Ty := do
  let result ← send op left (operatorMethod op.kind) [right]
  return if answersBool op.kind then builtin .bool else result

/-- The type of a conjunction or disjunction. -/
def logicalType (left right : Ty) : Check Ty := do
  return ((← answer (·.unify? (some left) (some right))).join).getD objectType

/-- The type of a variable. -/
def variableType (s : Checker) (name : String) : Ty :=
  match lookup? s name with
  | none => objectType
  | some (_, t) => t.getD (builtin .nil)

/-- A use of a variable. -/
def useVariable (use : NameUse) : Check Ty := do
  noteUse use.id use.name.lexeme
  record use.id (variableType (← get) use.name.lexeme)

/-- The type of the receiver. -/
def selfType (s : Checker) : Ty := ((lookup? s "self").bind Prod.snd).getD objectType

/-- A variable gets a value: a new one becomes global, one without a type gets it, and one with a
type gets the more general type. -/
def assign (name : Token) (value : Ty) : Check Unit := do
  match lookup? (← get) name.lexeme with
  | none => defineAt .global name.lexeme (some value)
  | some (place, none) => defineAt place name.lexeme (some value)
  | some (place, some existing) =>
    match ← answer (·.unify? (some existing) (some value)) with
    | none => reject name (.redefinedVariable (← text existing) (← text value))
    | some u => defineAt place name.lexeme u

/-- The type of the elements of a value that is iterated over. -/
def elementType (keyword : Token) (t : Ty) : Check Ty := do
  if isObject (some t) then return objectType
  else
    match t with
    | .instance c =>
      match c.native? with
      | some n =>
        match n.method? "iterate" with
        | some _ => return globalType (← get) n.elements
        | none => reject keyword (.classNotIterable c.name)
      | none =>
        match (← get).methods.lookup "iterate" c with
        | .found _ _ => return objectType
        | .ambiguous branches => reject keyword (.ambiguous "iterate" branches)
        | .absent => reject keyword (.classNotIterable c.name)
    | _ => reject keyword (.notIterable (← text t))

/-- Notes the type of a result. -/
def noteReturn (keyword : Token) (t : Ty) : Check Unit :=
  modify fun s =>
    { s with context := s.context.map fun c => { c with returns := (t, keyword) :: c.returns } }

/-- The context of a function inside the current one. -/
def childContext (s : Checker) : Context :=
  match s.context with
  | none => {}
  | some c => { home := c.home, method? := c.method?, class? := c.class? }

/-- The common type of results in source order. -/
def settle (name : String) : Ty → List (Ty × Token) → Check Ty
  | ret, [] => return ret
  | ret, (t, keyword) :: rest => do
    match ← answer (·.unify? (some ret) (some t)) with
    | none => reject keyword (.multipleReturns name (← text ret) (← text t))
    | some u => settle name (u.getD ret) rest

/-- The type of a function's result, from the results in its body. -/
def resultType (name : String) (c : Context) : Check Ty := do
  match c.isInitializer, c.class? with
  | true, some cls => return .instance cls
  | _, _ =>
    match c.returns.reverse with
    | [] => return builtin .nil
    | (t, _) :: rest => settle name t rest

/-- The names and types of parameters inside the body. A parameter without a type has no
meaning. -/
def paramVars : List Param → List Ty → Option (List (String × Option Ty))
  | [], _ => some []
  | p :: ps, types =>
    if p.variadic then do
      let rest ← paramVars ps types.tail
      return (p.name.lexeme, some (builtin .varargs)) :: rest
    else
      match types with
      | [] => none
      | t :: ts => do
        let rest ← paramVars ps ts
        return (p.name.lexeme, some t) :: rest

/-- Checks a function's body in a scope with the parameters, and settles the type of its
result. -/
def functionBody (id : NodeId) (params : List Param) (f : SignatureId) (context : Context)
    (body : Check Unit) : Check Unit := do
  let sig := (← get).signature f
  match paramVars params sig.paramTypes with
  | none => throw .fault
  | some vars =>
    let outer := (← get).context
    -- The body collects its results in a context of its own.
    modify fun s => { s with context := some context }
    inScope { origin := .call id, vars := vars.reverse } body
    let inner := (← get).context.getD context
    let result ← resultType sig.name inner
    modify fun s =>
      { s with
        signatures := s.signatures.modify f ({ · with returns := some result })
        context := outer }

/-- The context of a method. -/
def methodContext (c : ClassType) (name : String) (f : SignatureId) : Context :=
  { isInitializer := name = "init", home := name, method? := some f, class? := some c }

/-- Adds a method to a class. -/
def putMember (c : ClassType) (name : String) (f : SignatureId) : Check Unit :=
  modify fun s =>
    { s with bodies := s.bodies.modify c.id fun b => { b with members := b.members.insert name f } }

/-- A new class. -/
def newClass (name : String) (supers : List ClassType) : Check ClassType :=
  modifyGet fun s =>
    ({ id := s.bodies.size, name, supers, native? := none },
      { s with bodies := s.bodies.push {} })

/-- The superclasses of a class. -/
def superclasses : List NameUse → Check (List ClassType)
  | [] => return []
  | use :: rest => do
    match ← useVariable use with
    | .class c =>
      if c.native?.isSome then reject use.name .notSuperclass
      return c :: (← superclasses rest)
    | _ => reject use.name .notSuperclass

mutual

/-- Checks an expression. -/
def expr : Expr → Check Ty
  | .literal id _ value => record id (literalType value)
  | .group id _ inner => do record id (← expr inner)
  | .list id _ elements => do
    let _ ← exprs elements
    record id (builtin .list)
  | .var use => useVariable use
  | .self id _ => do record id (selfType (← get))
  | .assign id name value => do
    let t ← expr value
    noteUse id name.lexeme
    assign name t
    record id t
  | .super id keyword method => do record id (← superType keyword method)
  | .unary id op right => do
    let t ← expr right
    record id (← send op t (if op.kind = .minus then "negate" else "isNotTrue") [])
  | .binary id left op right => do
    let l ← expr left
    let r ← expr right
    record id (← binaryType op l r)
  | .logical id left _ right => do
    let l ← expr left
    let r ← expr right
    record id (← logicalType l r)
  | .call id callee paren args named => do
    let fn ← expr callee
    let ts ← exprs args
    let ns ← namedArgs named
    record id (← callType paren fn ts ns)
  | .get id object name => do
    let t ← expr object
    record id (← member t name)
  | .set id object name value => do
    let t ← expr object
    let v ← expr value
    setAttribute t name v
    record id v
  | .lambda ⟨id, _, name, params, body⟩ => do
    let title := (name.map Token.lexeme).getD "lambda"
    -- The signature is there before the body is checked, which may use the function itself.
    let f ← newSignature
      { name := title, params, paramTypes := ← paramTypes params, returns := none }
    functionBody id params f (childContext (← get)) (stmts body)
    record id (.function f)

/-- Checks expressions in a row. -/
def exprs : List Expr → Check (List Ty)
  | [] => return []
  | e :: rest => do
    let t ← expr e
    return t :: (← exprs rest)

/-- Checks named arguments. -/
def namedArgs : List NamedArg → Check (List (Token × Ty))
  | [] => return []
  | ⟨name, value⟩ :: rest => do
    let t ← expr value
    return (name, t) :: (← namedArgs rest)

/-- The declared types of parameters, whose defaults have to be of these types. -/
def paramTypes : List Param → Check (List Ty)
  | [] => return []
  | ⟨type, _, none, _⟩ :: rest => do
    let t ← declaredType type
    return t :: (← paramTypes rest)
  | ⟨type, name, some value, _⟩ :: rest => do
    let t ← declaredType type
    let d ← expr value
    unless ← answer (·.assignable? (some t) (some d)) do
      reject name (.badDefault name.lexeme (← text t) (← text d))
    return t :: (← paramTypes rest)

/-- Declares the methods of a class. -/
def declareMethods (c : ClassType) : List Lambda → Check Unit
  | [] => return
  | ⟨id, _, name, params, _⟩ :: rest => do
    let title := (name.map Token.lexeme).getD "lambda"
    let f ← newSignature
      { name := title, params, paramTypes := ← paramTypes params, returns := none }
    putMember c title f
    let _ ← record id (.function f)
    declareMethods c rest

/-- Checks the body of a method against the signature that the class has for its name. -/
def methodBody (c : ClassType) : Lambda → Check Unit
  | ⟨id, _, name, params, body⟩ => do
    let title := (name.map Token.lexeme).getD "lambda"
    match ((← get).body c).members[title]? with
    | none => throw .fault
    | some f => functionBody id params f (methodContext c title f) (stmts body)

/-- Checks the bodies of the initializers, the last one first. -/
def initializerBodies (c : ClassType) : List Lambda → Check Unit
  | [] => return
  | fn :: rest => do
    initializerBodies c rest
    if fn.title = "init" then methodBody c fn

/-- Checks the bodies of the other methods. -/
def otherBodies (c : ClassType) : List Lambda → Check Unit
  | [] => return
  | fn :: rest => do
    if fn.title ≠ "init" then methodBody c fn
    otherBodies c rest

/-- Checks a block in a scope of its own. -/
def block : Block → Check Unit
  | ⟨id, _, body⟩ => do
    let _ ← record id (builtin .nil)
    inScope { origin := .block id } (stmts body)

/-- Checks a statement. Initializers are checked before the other methods of a class, so that the
fields they assign are known. -/
def stmt : Stmt → Check Unit
  | .expr id value => do
    let _ ← record id (← expr value)
  | .varDecl id name none => do
    define name.lexeme none
    let _ ← record id (builtin .nil)
  | .varDecl id name (some value) => do
    let t ← expr value
    define name.lexeme (some t)
    let _ ← record id t
  | .function id ⟨fid, _, name, params, body⟩ => do
    let title := (name.map Token.lexeme).getD "lambda"
    let f ← newSignature
      { name := title, params, paramTypes := ← paramTypes params, returns := none }
    -- The name is defined before the body is checked, so that the function can call itself.
    define title (some (.function f))
    let _ ← record id (.function f)
    functionBody fid params f (childContext (← get)) (stmts body)
  | .classDecl id name supers methods => do
    let c ← newClass name.lexeme (← superclasses supers)
    define name.lexeme (some (.class c))
    let _ ← record id (.class c)
    inScope { origin := .receiver id, vars := [("self", some (.instance c))] } do
      -- All methods are known before the first body, so that they can use each other.
      declareMethods c methods
      initializerBodies c methods
      otherBodies c methods
  | .block b => block b
  | .ifElse id _ condition body none => do
    let _ ← record id (builtin .nil)
    let _ ← expr condition
    block body
  | .ifElse id _ condition body (some otherwise) => do
    let _ ← record id (builtin .nil)
    let _ ← expr condition
    block body
    stmt otherwise
  | .whileLoop id _ condition body => do
    let _ ← record id (builtin .nil)
    let _ ← expr condition
    block body
  | .forIn id keyword name iterable body => do
    let _ ← record id (builtin .nil)
    let t ← expr iterable
    let e ← elementType keyword t
    inScope { origin := .loop id, vars := [(name.lexeme, some e)] } (block body)
  | .ret id keyword none => do
    let t ← record id (builtin .nil)
    noteReturn keyword t
  | .ret id keyword (some value) => do
    let t ← record id (← expr value)
    noteReturn keyword t

/-- Checks statements in a row. -/
def stmts : List Stmt → Check Unit
  | [] => return
  | s :: rest => do
    stmt s
    stmts rest

end

end Check

/-- The answer to a check. -/
inductive Verdict where
  /-- The program is accepted. -/
  | accepted
  /-- The program is rejected. -/
  | rejected (error : Error)
  /-- A comparison or a text of types has no end. -/
  | endless
  /-- The checker did something that has no meaning. -/
  | fault

namespace Checker

/-- The fields of the global classes, by the place of the class. -/
def globalAttributes (s : Checker) : List (Nat × Std.TreeMap String Ty) :=
  s.globals.toList.filterMap fun (_, t) =>
    match t with
    | some (.class c) => if c.native?.isNone then some (c.id, (s.body c).attributes) else none
    | _ => none

/-- Puts the global names and the fields of the global classes back to what they were. -/
def restore (s : Checker) (globals : Std.TreeMap String (Option Ty))
    (attributes : List (Nat × Std.TreeMap String Ty)) : Checker :=
  { s with
    globals
    bodies := attributes.foldl (fun bs (id, attributes) => bs.modify id ({ · with attributes }))
      s.bodies }

/-- Nothing is being checked. -/
def idle (s : Checker) : Checker := { s with locals := [], context := none }

/-- Checks a program. -/
def check (s : Checker) (program : List Stmt) : Verdict × Checker :=
  match Check.stmts program s.idle with
  | .ok _ s' => (.accepted, s')
  | .error e s' =>
    let s' := (s'.restore s.globals s.globalAttributes).idle
    match e with
    | .rejected error => (.rejected error, s')
    | .endless => (.endless, s')
    | .fault => (.fault, s')

/-- The type of a global name. -/
def lookup? (s : Checker) (name : String) : Option (Option Ty) := s.globals[name]?

/-- What a global value is at first. -/
inductive Seed where
  /-- A native class. -/
  | nativeClass (c : NativeClass)
  /-- A native function. -/
  | nativeFunction (f : NativeFunction)
  /-- Any other value. -/
  | other

/-- A checker with one more global. -/
def seed (s : Checker) (name : String) : Seed → Checker
  | .nativeClass c => { s with globals := s.globals.insert name (some (.class (nativeType c))) }
  | .nativeFunction f =>
    let sig := Check.nativeSignature s f.name f.params f.returns
    { s with
      signatures := s.signatures.push sig
      globals := s.globals.insert name (some (.function s.signatures.size)) }
  | .other => { s with globals := s.globals.insert name (some objectType) }

/-- A checker that knows the given globals. -/
def ofGlobals (globals : List (String × Seed)) : Checker :=
  globals.foldl (fun s (name, v) => s.seed name v)
    { bodies := Array.replicate NativeClass.all.length {} }

end Checker

end ClassScript.Typing
