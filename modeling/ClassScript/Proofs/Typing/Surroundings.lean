import ClassScript.Proofs.Scope.Sites
import ClassScript.Proofs.Typing.Edits

/-!
# Checking superclasses by what is around them

The checker keeps the enclosing class and method in its state and swaps them around the bodies of
functions. Here it is written once more with the treatment of superclasses left open, and what is
around a use is handed down with the syntax instead: a class declaration hands the class that it
made, with a name and a signature, to the body of a method, and whatever lies inside gets just that.
Nothing else differs, so that any two treatments can be compared on whole programs.
-/

namespace ClassScript.Typing

/-- A method whose body is around a place, as the checker knows it there. -/
structure MethodBody where
  /-- The declaration of the class that the method belongs to. -/
  owner : NodeId
  /-- The name of the method. -/
  title : String
  /-- The class that the declaration made. -/
  cls : ClassType
  /-- The signature that the class has for the name. -/
  signature : SignatureId

/-- The innermost method around a place. -/
inductive Surroundings where
  /-- The place lies in a default of the method, which has no signature yet. The body outside is the
  innermost one around the class. -/
  | defaults (owner : NodeId) (title : String) (cls : ClassType) (outside : Option MethodBody)
  /-- The place lies in the body of the method. -/
  | body (inside : MethodBody)

/-- The method in the syntax. -/
def Surroundings.enclosing : Surroundings → Enclosing
  | .defaults owner title .. => ⟨owner, title, true⟩
  | .body inside => ⟨inside.owner, inside.title, false⟩

/-- The innermost body of a method around a place. -/
def Surroundings.bodyAround : Option Surroundings → Option MethodBody
  | some (.defaults _ _ _ outside) => outside
  | some (.body inside) => some inside
  | none => none

namespace Check

/-- How the uses of superclasses are checked. -/
abbrev Treatment := Option Surroundings → NodeId → Token → Option Token → Check Ty

section

variable (sup : Treatment)

mutual

/-- Checks an expression. -/
def exprIn (around : Option Surroundings) : Expr → Check Ty
  | .literal id _ value => record id (literalType value)
  | .group id _ inner => do record id (← exprIn around inner)
  | .list id _ elements => do
    let _ ← exprsIn around elements
    record id (builtin .list)
  | .var use => useVariable use
  | .self id _ => do record id (selfType (← get))
  | .assign id name value => do
    let t ← exprIn around value
    noteUse id name.lexeme
    assign name t
    record id t
  | .super id keyword method => do record id (← sup around id keyword method)
  | .unary id op right => do
    let t ← exprIn around right
    record id (← send op t (if op.kind = .minus then "negate" else "isNotTrue") [])
  | .binary id left op right => do
    let l ← exprIn around left
    let r ← exprIn around right
    record id (← binaryType op l r)
  | .logical id left _ right => do
    let l ← exprIn around left
    let r ← exprIn around right
    record id (← logicalType l r)
  | .call id callee paren args named => do
    let fn ← exprIn around callee
    let ts ← exprsIn around args
    let ns ← namedArgsIn around named
    record id (← callType paren fn ts ns)
  | .get id object name => do
    let t ← exprIn around object
    record id (← member t name)
  | .set id object name value => do
    let t ← exprIn around object
    let v ← exprIn around value
    setAttribute t name v
    record id v
  | .lambda ⟨id, _, name, params, body⟩ => do
    let title := (name.map Token.lexeme).getD "lambda"
    let f ← newSignature
      { name := title, params, paramTypes := ← paramTypesIn around params, returns := none }
    functionBody id params f (childContext (← get)) (stmtsIn around body)
    record id (.function f)

/-- Checks expressions in a row. -/
def exprsIn (around : Option Surroundings) : List Expr → Check (List Ty)
  | [] => return []
  | e :: rest => do
    let t ← exprIn around e
    return t :: (← exprsIn around rest)

/-- Checks named arguments. -/
def namedArgsIn (around : Option Surroundings) : List NamedArg → Check (List (Token × Ty))
  | [] => return []
  | ⟨name, value⟩ :: rest => do
    let t ← exprIn around value
    return (name, t) :: (← namedArgsIn around rest)

/-- The declared types of parameters, whose defaults have to be of these types. -/
def paramTypesIn (around : Option Surroundings) : List Param → Check (List Ty)
  | [] => return []
  | ⟨type, _, none, _⟩ :: rest => do
    let t ← declaredType type
    return t :: (← paramTypesIn around rest)
  | ⟨type, name, some value, _⟩ :: rest => do
    let t ← declaredType type
    let d ← exprIn around value
    unless ← answer (·.assignable? (some t) (some d)) do
      reject name (.badDefault name.lexeme (← text t) (← text d))
    return t :: (← paramTypesIn around rest)

/-- Declares the methods of a class inside a body. -/
def declareMethodsIn (outside : Option MethodBody) (owner : NodeId) (c : ClassType) :
    List Lambda → Check Unit
  | [] => return
  | ⟨id, _, name, params, _⟩ :: rest => do
    let title := (name.map Token.lexeme).getD "lambda"
    let around := some (.defaults owner title c outside)
    let f ← newSignature
      { name := title, params, paramTypes := ← paramTypesIn around params, returns := none }
    putMember c title f
    let _ ← record id (.function f)
    declareMethodsIn outside owner c rest

/-- Checks the body of a method. -/
def methodBodyIn (owner : NodeId) (c : ClassType) : Lambda → Check Unit
  | ⟨id, _, name, params, body⟩ => do
    let title := (name.map Token.lexeme).getD "lambda"
    match ((← get).body c).members[title]? with
    | none => throw .fault
    | some f =>
      functionBody id params f (methodContext c title f)
        (stmtsIn (some (.body ⟨owner, title, c, f⟩)) body)

/-- Checks the bodies of the initializers, the last one first. -/
def initializerBodiesIn (owner : NodeId) (c : ClassType) : List Lambda → Check Unit
  | [] => return
  | fn :: rest => do
    initializerBodiesIn owner c rest
    if fn.title = "init" then methodBodyIn owner c fn

/-- Checks the bodies of the other methods. -/
def otherBodiesIn (owner : NodeId) (c : ClassType) : List Lambda → Check Unit
  | [] => return
  | fn :: rest => do
    if fn.title ≠ "init" then methodBodyIn owner c fn
    otherBodiesIn owner c rest

/-- Checks a block in a scope of its own. -/
def blockIn (around : Option Surroundings) : Block → Check Unit
  | ⟨id, _, body⟩ => do
    let _ ← record id (builtin .nil)
    inScope { origin := .block id } (stmtsIn around body)

/-- Checks a statement. -/
def stmtIn (around : Option Surroundings) : Stmt → Check Unit
  | .expr id value => do
    let _ ← record id (← exprIn around value)
  | .varDecl id name none => do
    define name.lexeme none
    let _ ← record id (builtin .nil)
  | .varDecl id name (some value) => do
    let t ← exprIn around value
    define name.lexeme (some t)
    let _ ← record id t
  | .function id ⟨fid, _, name, params, body⟩ => do
    let title := (name.map Token.lexeme).getD "lambda"
    let f ← newSignature
      { name := title, params, paramTypes := ← paramTypesIn around params, returns := none }
    define title (some (.function f))
    let _ ← record id (.function f)
    functionBody fid params f (childContext (← get)) (stmtsIn around body)
  | .classDecl id name supers methods => do
    let c ← newClass name.lexeme (← superclasses supers)
    define name.lexeme (some (.class c))
    let _ ← record id (.class c)
    inScope { origin := .receiver id, vars := [("self", some (.instance c))] } do
      declareMethodsIn (Surroundings.bodyAround around) id c methods
      initializerBodiesIn id c methods
      otherBodiesIn id c methods
  | .block b => blockIn around b
  | .ifElse id _ condition body none => do
    let _ ← record id (builtin .nil)
    let _ ← exprIn around condition
    blockIn around body
  | .ifElse id _ condition body (some otherwise) => do
    let _ ← record id (builtin .nil)
    let _ ← exprIn around condition
    blockIn around body
    stmtIn around otherwise
  | .whileLoop id _ condition body => do
    let _ ← record id (builtin .nil)
    let _ ← exprIn around condition
    blockIn around body
  | .forIn id keyword name iterable body => do
    let _ ← record id (builtin .nil)
    let t ← exprIn around iterable
    let e ← elementType keyword t
    inScope { origin := .loop id, vars := [(name.lexeme, some e)] } (blockIn around body)
  | .ret id keyword none => do
    let t ← record id (builtin .nil)
    noteReturn keyword t
  | .ret id keyword (some value) => do
    let t ← record id (← exprIn around value)
    noteReturn keyword t

/-- Checks statements in a row. -/
def stmtsIn (around : Option Surroundings) : List Stmt → Check Unit
  | [] => return
  | s :: rest => do
    stmtIn around s
    stmtsIn around rest

end

end

end Check

end ClassScript.Typing
