import ClassScript.Token.Basic

/-!
# Syntax trees

Expressions and statements of a program. Every node has an identity of its own, so that later
passes can attach facts to it; two uses of one name are two nodes.
-/

namespace ClassScript

/-- The identity of a node, different for any two nodes of one run. -/
abbrev NodeId := Nat

/-- A use of a name. -/
structure NameUse where
  /-- The identity of the node. -/
  id : NodeId
  /-- The name. -/
  name : Token
deriving Inhabited

mutual

/-- An expression. -/
inductive Expr where
  /-- A new value for a variable: `name = value`. -/
  | assign (id : NodeId) (name : Token) (value : Expr)
  /-- An operator between two operands. -/
  | binary (id : NodeId) (left : Expr) (op : Token) (right : Expr)
  /-- A call with positional arguments and, behind them, named ones; `paren` closes it. -/
  | call (id : NodeId) (callee : Expr) (paren : Token) (args : List Expr) (named : List NamedArg)
  /-- A member of an object: `object.name`. -/
  | get (id : NodeId) (object : Expr) (name : Token)
  /-- A new value for a field: `object.name = value`. -/
  | set (id : NodeId) (object : Expr) (name : Token) (value : Expr)
  /-- An expression in parentheses; `paren` opens it. -/
  | group (id : NodeId) (paren : Token) (inner : Expr)
  /-- A constant. -/
  | literal (id : NodeId) (token : Token) (value : Literal)
  /-- A list display; `bracket` opens it. -/
  | list (id : NodeId) (bracket : Token) (elements : List Expr)
  /-- A conjunction or disjunction that may leave out its second operand. -/
  | logical (id : NodeId) (left : Expr) (op : Token) (right : Expr)
  /-- The receiver of the enclosing method. -/
  | self (id : NodeId) (keyword : Token)
  /-- A method of the superclasses; without a name, the one that overrides like the enclosing
  method. -/
  | super (id : NodeId) (keyword : Token) (method : Option Token)
  /-- An operator in front of its operand. -/
  | unary (id : NodeId) (op : Token) (right : Expr)
  /-- A variable. -/
  | var (use : NameUse)
  /-- A function literal. -/
  | lambda (fn : Lambda)

/-- An argument matched to a parameter by name: `name: value`. -/
structure NamedArg where
  /-- The name of the parameter. -/
  name : Token
  /-- The argument. -/
  value : Expr

/-- A parameter of a function. -/
structure Param where
  /-- The declared type, `Object` if the source has none. -/
  type : Token
  /-- The name. -/
  name : Token
  /-- The value of an omitted argument; a parameter without one is required. -/
  defaultValue : Option Expr
  /-- Whether the parameter collects all further positional arguments. -/
  variadic : Bool

/-- A function, method or function literal. -/
structure Lambda where
  /-- The identity of the node. -/
  id : NodeId
  /-- The token the declaration starts with. -/
  keyword : Token
  /-- The name, which a function literal does not have. -/
  name : Option Token
  /-- The parameters. -/
  params : List Param
  /-- The statements of the body. -/
  body : List Stmt

/-- Statements in braces, with a scope of their own. -/
structure Block where
  /-- The identity of the node. -/
  id : NodeId
  /-- The opening brace. -/
  brace : Token
  /-- The statements. -/
  body : List Stmt

/-- A statement. -/
inductive Stmt where
  /-- A block. -/
  | block (block : Block)
  /-- A class with its superclasses and methods. -/
  | classDecl (id : NodeId) (name : Token) (supers : List NameUse) (methods : List Lambda)
  /-- An expression evaluated for its effects. -/
  | expr (id : NodeId) (value : Expr)
  /-- A named function. -/
  | function (id : NodeId) (fn : Lambda)
  /-- A conditional; the other branch is a block or a further conditional. -/
  | ifElse (id : NodeId) (keyword : Token) (condition : Expr) (body : Block)
      (otherwise : Option Stmt)
  /-- A loop over the elements of a value. -/
  | forIn (id : NodeId) (keyword : Token) (name : Token) (iterable : Expr) (body : Block)
  /-- The end of a function, with its result. -/
  | ret (id : NodeId) (keyword : Token) (value : Option Expr)
  /-- A variable, with its first value. -/
  | varDecl (id : NodeId) (name : Token) (initial : Option Expr)
  /-- A loop with a condition. -/
  | whileLoop (id : NodeId) (keyword : Token) (condition : Expr) (body : Block)

end

instance : Inhabited Expr := ⟨.literal 0 Token.absent .nil⟩

instance : Inhabited Stmt := ⟨.ret 0 Token.absent none⟩

instance : Inhabited Block := ⟨⟨0, Token.absent, []⟩⟩

instance : Inhabited Lambda := ⟨⟨0, Token.absent, none, [], []⟩⟩

namespace Param

/-- A required parameter that does not come from a source. -/
def required (type name : String) : Param :=
  { type := .synthetic type, name := .synthetic name, defaultValue := none, variadic := false }

/-- A variadic parameter that does not come from a source. -/
def rest (type name : String) : Param := { required type name with variadic := true }

end Param

namespace Lambda

/-- The token that locates the function: its name if it has one. -/
def token (fn : Lambda) : Token := fn.name.getD fn.keyword

/-- The name a function goes by. -/
def title (fn : Lambda) : String := (fn.name.map Token.lexeme).getD "lambda"

end Lambda

/-- The identity of an expression. -/
def Expr.id : Expr → NodeId
  | .assign id .. | .binary id .. | .call id .. | .get id .. | .set id .. | .group id ..
  | .literal id .. | .list id .. | .logical id .. | .self id .. | .super id .. | .unary id .. => id
  | .var use => use.id
  | .lambda fn => fn.id

/-- The token that best locates an expression. -/
def Expr.token : Expr → Token
  | .assign _ name _ => name
  | .binary _ _ op _ => op
  | .call _ _ paren _ _ => paren
  | .get _ _ name => name
  | .set _ _ name _ => name
  | .group _ paren _ => paren
  | .literal _ token _ => token
  | .list _ bracket _ => bracket
  | .logical _ _ op _ => op
  | .self _ keyword => keyword
  | .super _ keyword _ => keyword
  | .unary _ op _ => op
  | .var use => use.name
  | .lambda fn => fn.token

/-- The identity of a statement. -/
def Stmt.id : Stmt → NodeId
  | .block b => b.id
  | .classDecl id .. | .expr id .. | .function id .. | .ifElse id .. | .forIn id .. | .ret id ..
  | .varDecl id .. | .whileLoop id .. => id

/-- The token that best locates a statement. -/
def Stmt.token : Stmt → Token
  | .block b => b.brace
  | .classDecl _ name _ _ => name
  | .expr _ value => value.token
  | .function _ fn => fn.token
  | .ifElse _ keyword .. => keyword
  | .forIn _ keyword .. => keyword
  | .ret _ keyword _ => keyword
  | .varDecl _ name _ => name
  | .whileLoop _ keyword .. => keyword

end ClassScript
