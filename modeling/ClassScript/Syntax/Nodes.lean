import ClassScript.Syntax.Basic

/-!
# Walking a tree

The nodes of a program in source order, each in front of the nodes below it.
-/

namespace ClassScript

/-- A node of a syntax tree. -/
inductive Node where
  /-- An expression. -/
  | expr (e : Expr)
  /-- A statement. -/
  | stmt (s : Stmt)

namespace Node

/-- The identity of a node. -/
def id : Node → NodeId
  | expr e => e.id
  | stmt s => s.id

/-- The token that best locates a node. -/
def token : Node → Token
  | expr e => e.token
  | stmt s => s.token

/-- The name of a node's kind. -/
def kindName : Node → String
  | expr (.assign ..) => "Assign"
  | expr (.binary ..) => "Binary"
  | expr (.call ..) => "Call"
  | expr (.get ..) => "Get"
  | expr (.set ..) => "Set"
  | expr (.group ..) => "Grouping"
  | expr (.literal ..) => "Literal"
  | expr (.list ..) => "List"
  | expr (.logical ..) => "Logical"
  | expr (.self ..) => "Self"
  | expr (.super ..) => "Super"
  | expr (.unary ..) => "Unary"
  | expr (.var ..) => "Variable"
  | expr (.lambda ..) => "Lambda"
  | stmt (.block ..) => "Block"
  | stmt (.classDecl ..) => "ClassDecl"
  | stmt (.expr ..) => "Expression"
  | stmt (.function ..) => "Function"
  | stmt (.ifElse ..) => "If"
  | stmt (.forIn ..) => "For"
  | stmt (.ret ..) => "Return"
  | stmt (.varDecl ..) => "Var"
  | stmt (.whileLoop ..) => "While"

/-- A node and, where the walk goes into it, the nodes below. -/
def visit (enter : Node → Bool) (n : Node) (below : List Node) : List Node :=
  n :: if enter n then below else []

end Node

mutual

/-- The nodes of an expression. -/
def Expr.nodes (enter : Node → Bool) : Expr → List Node
  | .assign id name value => Node.visit enter (.expr (.assign id name value)) (value.nodes enter)
  | .binary id left op right =>
    Node.visit enter (.expr (.binary id left op right)) (left.nodes enter ++ right.nodes enter)
  | .call id callee paren args named =>
    Node.visit enter (.expr (.call id callee paren args named))
      (callee.nodes enter ++ Expr.nodesOf enter args ++ NamedArg.nodesOf enter named)
  | .get id object name => Node.visit enter (.expr (.get id object name)) (object.nodes enter)
  | .set id object name value =>
    Node.visit enter (.expr (.set id object name value)) (object.nodes enter ++ value.nodes enter)
  | .group id paren inner => Node.visit enter (.expr (.group id paren inner)) (inner.nodes enter)
  | .literal id token value => Node.visit enter (.expr (.literal id token value)) []
  | .list id bracket elements =>
    Node.visit enter (.expr (.list id bracket elements)) (Expr.nodesOf enter elements)
  | .logical id left op right =>
    Node.visit enter (.expr (.logical id left op right)) (left.nodes enter ++ right.nodes enter)
  | .self id keyword => Node.visit enter (.expr (.self id keyword)) []
  | .super id keyword method => Node.visit enter (.expr (.super id keyword method)) []
  | .unary id op right => Node.visit enter (.expr (.unary id op right)) (right.nodes enter)
  | .var use => Node.visit enter (.expr (.var use)) []
  | .lambda fn => fn.nodes enter

/-- The nodes of expressions in a row. -/
def Expr.nodesOf (enter : Node → Bool) : List Expr → List Node
  | [] => []
  | e :: rest => e.nodes enter ++ Expr.nodesOf enter rest

/-- The nodes of named arguments. -/
def NamedArg.nodesOf (enter : Node → Bool) : List NamedArg → List Node
  | [] => []
  | ⟨_, value⟩ :: rest => value.nodes enter ++ NamedArg.nodesOf enter rest

/-- The nodes of the parameters' defaults. -/
def Param.nodesOf (enter : Node → Bool) : List Param → List Node
  | [] => []
  | ⟨_, _, none, _⟩ :: rest => Param.nodesOf enter rest
  | ⟨_, _, some value, _⟩ :: rest => value.nodes enter ++ Param.nodesOf enter rest

/-- The nodes of a function. -/
def Lambda.nodes (enter : Node → Bool) : Lambda → List Node
  | ⟨id, keyword, name, params, body⟩ =>
    Node.visit enter (.expr (.lambda ⟨id, keyword, name, params, body⟩))
      (Param.nodesOf enter params ++ Stmt.nodesOf enter body)

/-- The nodes of methods in a row. -/
def Lambda.nodesOf (enter : Node → Bool) : List Lambda → List Node
  | [] => []
  | fn :: rest => fn.nodes enter ++ Lambda.nodesOf enter rest

/-- The nodes of a block. -/
def Block.nodes (enter : Node → Bool) : Block → List Node
  | ⟨id, brace, body⟩ =>
    Node.visit enter (.stmt (.block ⟨id, brace, body⟩)) (Stmt.nodesOf enter body)

/-- The nodes of a statement. -/
def Stmt.nodes (enter : Node → Bool) : Stmt → List Node
  | .block b => b.nodes enter
  | .classDecl id name supers methods =>
    Node.visit enter (.stmt (.classDecl id name supers methods))
      (supers.flatMap (fun s => Node.visit enter (.expr (.var s)) [])
        ++ Lambda.nodesOf enter methods)
  | .expr id value => Node.visit enter (.stmt (.expr id value)) (value.nodes enter)
  | .function id fn => Node.visit enter (.stmt (.function id fn)) (fn.nodes enter)
  | .ifElse id keyword condition body none =>
    Node.visit enter (.stmt (.ifElse id keyword condition body none))
      (condition.nodes enter ++ body.nodes enter)
  | .ifElse id keyword condition body (some otherwise) =>
    Node.visit enter (.stmt (.ifElse id keyword condition body (some otherwise)))
      (condition.nodes enter ++ body.nodes enter ++ otherwise.nodes enter)
  | .forIn id keyword name iterable body =>
    Node.visit enter (.stmt (.forIn id keyword name iterable body))
      (iterable.nodes enter ++ body.nodes enter)
  | .ret id keyword none => Node.visit enter (.stmt (.ret id keyword none)) []
  | .ret id keyword (some value) =>
    Node.visit enter (.stmt (.ret id keyword (some value))) (value.nodes enter)
  | .varDecl id name none => Node.visit enter (.stmt (.varDecl id name none)) []
  | .varDecl id name (some value) =>
    Node.visit enter (.stmt (.varDecl id name (some value))) (value.nodes enter)
  | .whileLoop id keyword condition body =>
    Node.visit enter (.stmt (.whileLoop id keyword condition body))
      (condition.nodes enter ++ body.nodes enter)

/-- The nodes of statements in a row. -/
def Stmt.nodesOf (enter : Node → Bool) : List Stmt → List Node
  | [] => []
  | s :: rest => s.nodes enter ++ Stmt.nodesOf enter rest

end

/-- Every node of a program. -/
def allNodes (program : List Stmt) : List Node := Stmt.nodesOf (fun _ => true) program

end ClassScript
