import Std.Data.TreeMap
import ClassScript.Scope.Origin

/-!
# Resolving names

Finds, for every use of a name, how many scopes lie between the use and the scope that declares
the name. A use without a declaration in an open scope refers to a global and has no distance.
Errors are noted and do not stop the analysis.
-/

namespace ClassScript.Scope

/-- The distances of the uses that have one. -/
abbrev Distances := Std.TreeMap NodeId Nat

/-- The syntax of the scopes that distances lead to. -/
abbrev Targets := Std.TreeMap NodeId Origin

/-- What can be wrong with the use of names and scopes. -/
inductive Misuse where
  /-- A scope declares a name twice. -/
  | redeclared
  /-- A local variable is read in its own initial value. -/
  | readInInitial
  /-- A result outside of every function. -/
  | returnOutside
  /-- A class that names itself as a superclass. -/
  | inheritsItself
  /-- A receiver outside of every class. -/
  | selfOutside
  /-- A superclass method outside of every class. -/
  | superOutside
  /-- A superclass method in a class without superclasses. -/
  | superWithoutSuperclass
deriving DecidableEq

/-- A misuse in words. -/
def Misuse.message : Misuse → String
  | redeclared => "Already a variable with this name in this scope."
  | readInInitial => "Can't read local variable in its own initializer."
  | returnOutside => "Can't return from top-level code."
  | inheritsItself => "A class can't inherit from itself."
  | selfOutside => "Can't use 'self' outside of a class."
  | superOutside => "Can't use 'super' outside of a class."
  | superWithoutSuperclass => "Can't use 'super' in a class with no superclass."

/-- A misuse at a token. -/
structure Report where
  /-- The offending token. -/
  token : Token
  /-- What is wrong. -/
  misuse : Misuse

/-- An open scope during the analysis. -/
structure Frame where
  /-- The syntax the scope belongs to. -/
  origin : Origin
  /-- The declared names, each with whether it can be used already. -/
  names : List (String × Bool) := []

/-- Whether a frame declares a name, and whether it can be used already. -/
def Frame.ready? (f : Frame) (name : String) : Option Bool := f.names.lookup name

/-- A frame with one more name. -/
def Frame.put (f : Frame) (name : String) (ready : Bool) : Frame :=
  { f with names := (name, ready) :: f.names }

/-- The class whose body is being analysed. -/
inductive ClassContext where
  /-- None. -/
  | outside
  /-- A class without superclasses. -/
  | plain
  /-- A class with superclasses. -/
  | derived
deriving DecidableEq

/-- The state of the analysis. -/
structure Resolver where
  /-- The open scopes, the innermost first. -/
  frames : List Frame := []
  /-- Whether the body of a function is being analysed. -/
  inFunction : Bool := false
  /-- The class whose body is being analysed. -/
  inClass : ClassContext := .outside
  /-- The distances found so far. -/
  distances : Distances := ∅
  /-- The scopes that the distances lead to. -/
  targets : Targets := ∅
  /-- What was wrong, the latest first. -/
  reports : List Report := []

namespace Resolver

/-- A step of the analysis. -/
abbrev Step := StateM Resolver Unit

/-- Notes a misuse. -/
def note (token : Token) (misuse : Misuse) : Step :=
  modify fun r => { r with reports := ⟨token, misuse⟩ :: r.reports }

/-- Opens a scope. -/
def openScope (origin : Origin) : Step :=
  modify fun r => { r with frames := ⟨origin, []⟩ :: r.frames }

/-- Closes the innermost scope. -/
def closeScope : Step := modify fun r => { r with frames := r.frames.tail }

/-- Sets a name of the innermost scope. -/
def put (name : String) (ready : Bool) : Step :=
  modify fun r =>
    match r.frames with
    | [] => r
    | f :: rest => { r with frames := f.put name ready :: rest }

/-- Declares a name in the innermost scope; it cannot be used yet. Globals may be declared
again. -/
def declare (name : Token) : Step := do
  match (← get).frames with
  | [] => return
  | f :: _ =>
    if (f.ready? name.lexeme).isSome then note name .redeclared
    put name.lexeme false

/-- Makes a declared name of the innermost scope usable. -/
def define (name : Token) : Step := put name.lexeme true

/-- The number of scopes between the innermost one and the one that declares a name. -/
def distance? (frames : List Frame) (name : String) : Option Nat :=
  frames.findIdx? fun f => (f.ready? name).isSome

/-- The scope a number of steps outward. -/
def target? (frames : List Frame) (distance : Nat) : Option Origin :=
  frames[distance]?.map (·.origin)

/-- Records the distance of a use, and where it leads. -/
def record (id : NodeId) (name : String) : Step :=
  modify fun r =>
    match distance? r.frames name with
    | none => r
    | some d =>
      { r with
        distances := r.distances.insert id d
        targets := r.targets.alter id fun _ => target? r.frames d }

/-- A use of a variable. -/
def useName (use : NameUse) : Step := do
  let name := use.name.lexeme
  if (← get).frames.head?.bind (·.ready? name) = some false then note use.name .readInInitial
  record use.id name

/-- A use of the receiver. -/
def useSelf (id : NodeId) (keyword : Token) : Step := do
  match (← get).inClass with
  | .outside => note keyword .selfOutside
  | _ => record id "self"

/-- A use of the superclasses. -/
def useSuper (id : NodeId) (keyword : Token) : Step := do
  match (← get).inClass with
  | .outside => note keyword .superOutside
  | .plain => note keyword .superWithoutSuperclass
  | .derived => record id "super"

/-- A superclass of the class with the given name. -/
def useSuperclass (className : String) (use : NameUse) : Step :=
  if use.name.lexeme = className then note use.name .inheritsItself else useName use

/-- The declarations of the parameters. -/
def declareParams (params : List Param) : Step :=
  params.forM fun p => do
    declare p.name
    define p.name

/-- Notes a result outside of every function. -/
def checkReturn (keyword : Token) : Step := do
  unless (← get).inFunction do note keyword .returnOutside

mutual

/-- Analyses an expression. -/
def expr : Expr → Step
  | .assign id name value => do
    expr value
    record id name.lexeme
  | .binary _ left _ right | .logical _ left _ right => do
    expr left
    expr right
  | .call _ callee _ args named => do
    expr callee
    exprs args
    namedArgs named
  | .get _ object _ => expr object
  | .set _ object _ value => do
    -- The order matters only for the order of the reports.
    expr value
    expr object
  | .group _ _ inner => expr inner
  | .literal .. => return
  | .list _ _ elements => exprs elements
  | .self id keyword => useSelf id keyword
  | .super id keyword _ => useSuper id keyword
  | .unary _ _ right => expr right
  | .var use => useName use
  | .lambda fn => function fn

/-- Analyses expressions in a row. -/
def exprs : List Expr → Step
  | [] => return
  | e :: rest => do
    expr e
    exprs rest

/-- Analyses named arguments. -/
def namedArgs : List NamedArg → Step
  | [] => return
  | ⟨_, value⟩ :: rest => do
    expr value
    namedArgs rest

/-- Analyses the defaults of parameters. -/
def defaults : List Param → Step
  | [] => return
  | ⟨_, _, none, _⟩ :: rest => defaults rest
  | ⟨_, _, some value, _⟩ :: rest => do
    expr value
    defaults rest

/-- Analyses a function: its defaults outside, its body in a scope with the parameters. -/
def function : Lambda → Step
  | ⟨id, _, _, params, body⟩ => do
    -- A default does not see the parameters in front of it.
    defaults params
    let enclosing := (← get).inFunction
    modify ({ · with inFunction := true })
    openScope (.call id)
    declareParams params
    stmts body
    closeScope
    modify ({ · with inFunction := enclosing })

/-- Analyses methods in a row. -/
def functions : List Lambda → Step
  | [] => return
  | fn :: rest => do
    function fn
    functions rest

/-- Analyses a block in a scope of its own. -/
def block : Block → Step
  | ⟨id, _, body⟩ => do
    openScope (.block id)
    stmts body
    closeScope

/-- Analyses a statement. The methods of a class see two scopes around them: one with the
superclasses and, inside, one with the receiver. -/
def stmt : Stmt → Step
  | .block b => block b
  | .varDecl _ name none => do
    declare name
    define name
  | .varDecl _ name (some value) => do
    -- Between the two steps the name is known and cannot be read.
    declare name
    expr value
    define name
  | .function _ fn => do
    declare fn.token
    define fn.token
    function fn
  | .classDecl id name supers methods => do
    let enclosing := (← get).inClass
    modify ({ · with inClass := .plain })
    declare name
    define name
    supers.forM (useSuperclass name.lexeme)
    -- Both scopes are opened even without superclasses, as they are when a method is bound.
    unless supers.isEmpty do modify ({ · with inClass := .derived })
    openScope (.supers id)
    put "super" true
    openScope (.receiver id)
    put "self" true
    functions methods
    closeScope
    closeScope
    modify ({ · with inClass := enclosing })
  | .expr _ value => expr value
  | .ifElse _ _ condition body none => do
    expr condition
    block body
  | .ifElse _ _ condition body (some otherwise) => do
    expr condition
    block body
    stmt otherwise
  | .whileLoop _ _ condition body => do
    expr condition
    block body
  | .forIn id _ name iterable body => do
    expr iterable
    openScope (.loop id)
    declare name
    define name
    block body
    closeScope
  | .ret _ keyword none => checkReturn keyword
  | .ret _ keyword (some value) => do
    checkReturn keyword
    expr value

/-- Analyses statements in a row. -/
def stmts : List Stmt → Step
  | [] => return
  | s :: rest => do
    stmt s
    stmts rest

end

/-- Analyses a program: the misuses in it, in the order they were found, and the state to go on
with. Distances add up over programs. -/
def run (r : Resolver) (program : List Stmt) : List Report × Resolver :=
  let r' := (stmts program { r with reports := [] }).2
  (r'.reports.reverse, r')

end Resolver

end ClassScript.Scope
