import ClassScript.Proofs.Scope.Uses

/-!
# The methods around the places of a program

A walk over a program that lists its nodes, each with the innermost method around it. The defaults
and the body of a method lie in the method, and so does everything in functions inside of them,
until a class inside has methods of its own. The superclasses of a class lie outside of its
methods.
-/

namespace ClassScript

/-! ### Places -/

/-- A method as it is seen from a place inside. -/
structure Enclosing where
  /-- The declaration of the class that the method belongs to. -/
  owner : NodeId
  /-- The name of the method. -/
  title : String
  /-- Whether the place lies in the default of a parameter of the method. -/
  inDefault : Bool

/-- A node of a program in its place. -/
structure Site where
  /-- The node. -/
  node : Node
  /-- The innermost method around the node. -/
  around : Option Enclosing

/-- The name of the innermost method around a place, or nothing. -/
def homeOf (around : Option Enclosing) : String := (around.map Enclosing.title).getD ""

/-- A method around the defaults of its parameters or around its body. -/
def Lambda.enclosing (owner : NodeId) (inDefault : Bool) (fn : Lambda) : Enclosing :=
  ⟨owner, fn.title, inDefault⟩

mutual

/-- The places in an expression. -/
def Expr.sites (around : Option Enclosing) : Expr → List Site
  | .assign id name value => ⟨.expr (.assign id name value), around⟩ :: value.sites around
  | .binary id left op right =>
    ⟨.expr (.binary id left op right), around⟩ :: (left.sites around ++ right.sites around)
  | .call id callee paren args named =>
    ⟨.expr (.call id callee paren args named), around⟩ ::
      (callee.sites around ++ Expr.sitesOf around args ++ NamedArg.sitesOf around named)
  | .get id object name => ⟨.expr (.get id object name), around⟩ :: object.sites around
  | .set id object name value =>
    ⟨.expr (.set id object name value), around⟩ :: (object.sites around ++ value.sites around)
  | .group id paren inner => ⟨.expr (.group id paren inner), around⟩ :: inner.sites around
  | .literal id token value => [⟨.expr (.literal id token value), around⟩]
  | .list id bracket elements =>
    ⟨.expr (.list id bracket elements), around⟩ :: Expr.sitesOf around elements
  | .logical id left op right =>
    ⟨.expr (.logical id left op right), around⟩ :: (left.sites around ++ right.sites around)
  | .self id keyword => [⟨.expr (.self id keyword), around⟩]
  | .super id keyword method => [⟨.expr (.super id keyword method), around⟩]
  | .unary id op right => ⟨.expr (.unary id op right), around⟩ :: right.sites around
  | .var use => [⟨.expr (.var use), around⟩]
  | .lambda fn => fn.sites around around

/-- The places in expressions in a row. -/
def Expr.sitesOf (around : Option Enclosing) : List Expr → List Site
  | [] => []
  | e :: rest => e.sites around ++ Expr.sitesOf around rest

/-- The places in named arguments. -/
def NamedArg.sitesOf (around : Option Enclosing) : List NamedArg → List Site
  | [] => []
  | ⟨_, value⟩ :: rest => value.sites around ++ NamedArg.sitesOf around rest

/-- The places in the parameters' defaults. -/
def Param.sitesOf (around : Option Enclosing) : List Param → List Site
  | [] => []
  | ⟨_, _, none, _⟩ :: rest => Param.sitesOf around rest
  | ⟨_, _, some value, _⟩ :: rest => value.sites around ++ Param.sitesOf around rest

/-- The places in a function, with what is around its defaults and around its body. -/
def Lambda.sites (outer inner : Option Enclosing) : Lambda → List Site
  | ⟨id, keyword, name, params, body⟩ =>
    ⟨.expr (.lambda ⟨id, keyword, name, params, body⟩), inner⟩ ::
      (Param.sitesOf outer params ++ Stmt.sitesOf inner body)

/-- The places in the methods of a class. -/
def Lambda.sitesOf (owner : NodeId) : List Lambda → List Site
  | [] => []
  | fn :: rest =>
    fn.sites (some (fn.enclosing owner true)) (some (fn.enclosing owner false)) ++
      Lambda.sitesOf owner rest

/-- The places in a block. -/
def Block.sites (around : Option Enclosing) : Block → List Site
  | ⟨id, brace, body⟩ => ⟨.stmt (.block ⟨id, brace, body⟩), around⟩ :: Stmt.sitesOf around body

/-- The places in a statement. -/
def Stmt.sites (around : Option Enclosing) : Stmt → List Site
  | .block b => b.sites around
  | .classDecl id name supers methods =>
    ⟨.stmt (.classDecl id name supers methods), around⟩ ::
      (supers.map (fun use => ⟨.expr (.var use), around⟩) ++ Lambda.sitesOf id methods)
  | .expr id value => ⟨.stmt (.expr id value), around⟩ :: value.sites around
  | .function id fn => ⟨.stmt (.function id fn), around⟩ :: fn.sites around around
  | .ifElse id keyword condition body none =>
    ⟨.stmt (.ifElse id keyword condition body none), around⟩ ::
      (condition.sites around ++ body.sites around)
  | .ifElse id keyword condition body (some otherwise) =>
    ⟨.stmt (.ifElse id keyword condition body (some otherwise)), around⟩ ::
      (condition.sites around ++ body.sites around ++ otherwise.sites around)
  | .forIn id keyword name iterable body =>
    ⟨.stmt (.forIn id keyword name iterable body), around⟩ ::
      (iterable.sites around ++ body.sites around)
  | .ret id keyword none => [⟨.stmt (.ret id keyword none), around⟩]
  | .ret id keyword (some value) =>
    ⟨.stmt (.ret id keyword (some value)), around⟩ :: value.sites around
  | .varDecl id name none => [⟨.stmt (.varDecl id name none), around⟩]
  | .varDecl id name (some value) =>
    ⟨.stmt (.varDecl id name (some value)), around⟩ :: value.sites around
  | .whileLoop id keyword condition body =>
    ⟨.stmt (.whileLoop id keyword condition body), around⟩ ::
      (condition.sites around ++ body.sites around)

/-- The places in statements in a row. -/
def Stmt.sitesOf (around : Option Enclosing) : List Stmt → List Site
  | [] => []
  | s :: rest => s.sites around ++ Stmt.sitesOf around rest

end

/-! ### The nodes in their places -/

/-- The places of variables in a row are those of their nodes. -/
theorem NameUse.nodes_sites (around : Option Enclosing) (uses : List NameUse) :
    (uses.map fun use => Site.mk (.expr (.var use)) around).map Site.node =
      uses.flatMap fun u => Node.visit everywhere (.expr (.var u)) [] := by
  induction uses with
  | nil => rfl
  | cons use rest ih => exact congrArg (_ :: ·) ih

mutual

/-- The walk comes to every node once. -/
theorem Expr.nodes_sites (around : Option Enclosing) :
    ∀ e : Expr, (e.sites around).map Site.node = e.nodes everywhere
  | .assign _ _ value => congrArg (_ :: ·) (value.nodes_sites around)
  | .binary _ left _ right | .logical _ left _ right => by
    simp [Expr.sites, Expr.nodes, left.nodes_sites, right.nodes_sites]
  | .call _ callee _ args named => by
    simp [Expr.sites, Expr.nodes, callee.nodes_sites, Expr.nodes_sitesOf around args,
      NamedArg.nodes_sitesOf around named]
  | .get _ object _ => congrArg (_ :: ·) (object.nodes_sites around)
  | .set _ object _ value => by
    simp [Expr.sites, Expr.nodes, object.nodes_sites, value.nodes_sites]
  | .group _ _ inner => congrArg (_ :: ·) (inner.nodes_sites around)
  | .literal .. | .self .. | .super .. | .var _ => rfl
  | .list _ _ elements => congrArg (_ :: ·) (Expr.nodes_sitesOf around elements)
  | .unary _ _ right => congrArg (_ :: ·) (right.nodes_sites around)
  | .lambda fn => fn.nodes_sites around around

/-- The places in expressions in a row are those of their nodes. -/
theorem Expr.nodes_sitesOf (around : Option Enclosing) :
    ∀ es : List Expr, (Expr.sitesOf around es).map Site.node = Expr.nodesOf everywhere es
  | [] => rfl
  | e :: rest => by
    simp [Expr.sitesOf, Expr.nodesOf, e.nodes_sites, Expr.nodes_sitesOf around rest]

/-- So are the places in named arguments. -/
theorem NamedArg.nodes_sitesOf (around : Option Enclosing) : ∀ args : List NamedArg,
    (NamedArg.sitesOf around args).map Site.node = NamedArg.nodesOf everywhere args
  | [] => rfl
  | ⟨_, value⟩ :: rest => by
    simp [NamedArg.sitesOf, NamedArg.nodesOf, value.nodes_sites, NamedArg.nodes_sitesOf around rest]

/-- So are the places in the defaults of parameters. -/
theorem Param.nodes_sitesOf (around : Option Enclosing) : ∀ params : List Param,
    (Param.sitesOf around params).map Site.node = Param.nodesOf everywhere params
  | [] => rfl
  | ⟨_, _, none, _⟩ :: rest => Param.nodes_sitesOf around rest
  | ⟨_, _, some value, _⟩ :: rest => by
    simp [Param.sitesOf, Param.nodesOf, value.nodes_sites, Param.nodes_sitesOf around rest]

/-- So are the places in a function, whatever is around its defaults and its body. -/
theorem Lambda.nodes_sites (outer inner : Option Enclosing) :
    ∀ fn : Lambda, (fn.sites outer inner).map Site.node = fn.nodes everywhere
  | ⟨_, _, _, params, body⟩ => by
    simp [Lambda.sites, Lambda.nodes, Param.nodes_sitesOf outer params,
      Stmt.nodes_sitesOf inner body]

/-- So are the places in methods. -/
theorem Lambda.nodes_sitesOf (owner : NodeId) : ∀ fns : List Lambda,
    (Lambda.sitesOf owner fns).map Site.node = Lambda.nodesOf everywhere fns
  | [] => rfl
  | fn :: rest => by
    simp [Lambda.sitesOf, Lambda.nodesOf, fn.nodes_sites, Lambda.nodes_sitesOf owner rest]

/-- So are the places in a block. -/
theorem Block.nodes_sites (around : Option Enclosing) :
    ∀ b : Block, (b.sites around).map Site.node = b.nodes everywhere
  | ⟨_, _, body⟩ => congrArg (_ :: ·) (Stmt.nodes_sitesOf around body)

/-- The walk comes to every node of a statement once. -/
theorem Stmt.nodes_sites (around : Option Enclosing) :
    ∀ s : Stmt, (s.sites around).map Site.node = s.nodes everywhere
  | .block b => b.nodes_sites around
  | .classDecl id _ supers methods => by
    have hsupers := NameUse.nodes_sites around supers
    have hmethods := Lambda.nodes_sitesOf id methods
    rw [Stmt.sites, Stmt.nodes, List.map_cons, List.map_append, hsupers, hmethods]
    rfl
  | .expr _ value => congrArg (_ :: ·) (value.nodes_sites around)
  | .function _ fn => congrArg (_ :: ·) (fn.nodes_sites around around)
  | .ifElse _ _ condition body none => by
    simp [Stmt.sites, Stmt.nodes, condition.nodes_sites, body.nodes_sites]
  | .ifElse _ _ condition body (some otherwise) => by
    simp [Stmt.sites, Stmt.nodes, condition.nodes_sites, body.nodes_sites, otherwise.nodes_sites]
  | .forIn _ _ _ iterable body => by
    simp [Stmt.sites, Stmt.nodes, iterable.nodes_sites, body.nodes_sites]
  | .ret _ _ none | .varDecl _ _ none => rfl
  | .ret _ _ (some value) | .varDecl _ _ (some value) =>
    congrArg (_ :: ·) (value.nodes_sites around)
  | .whileLoop _ _ condition body => by
    simp [Stmt.sites, Stmt.nodes, condition.nodes_sites, body.nodes_sites]

/-- So are the places in statements in a row. -/
theorem Stmt.nodes_sitesOf (around : Option Enclosing) :
    ∀ body : List Stmt, (Stmt.sitesOf around body).map Site.node = Stmt.nodesOf everywhere body
  | [] => rfl
  | s :: rest => by
    simp [Stmt.sitesOf, Stmt.nodesOf, s.nodes_sites, Stmt.nodes_sitesOf around rest]

end

/-- The places in two rows of statements are those in both. -/
theorem Stmt.sitesOf_append (around : Option Enclosing) (xs ys : List Stmt) :
    Stmt.sitesOf around (xs ++ ys) = Stmt.sitesOf around xs ++ Stmt.sitesOf around ys := by
  induction xs with
  | nil => rfl
  | cons s rest ih => simp only [List.cons_append, Stmt.sitesOf, ih, List.append_assoc]

/-- The place of an expression itself. -/
theorem Expr.exists_site (around : Option Enclosing) (e : Expr) :
    ∃ s ∈ e.sites around, s.node = .expr e ∧ s.around = around := by
  cases e with
  | lambda fn =>
    obtain ⟨id, keyword, name, params, body⟩ := fn
    exact ⟨_, List.mem_cons_self, rfl, rfl⟩
  | _ => exact ⟨_, List.mem_cons_self, rfl, rfl⟩

/-- The place of a statement itself. -/
theorem Stmt.exists_site (around : Option Enclosing) (s : Stmt) :
    ∃ s' ∈ s.sites around, s'.node = .stmt s ∧ s'.around = around := by
  cases s with
  | block b =>
    obtain ⟨id, brace, body⟩ := b
    exact ⟨_, List.mem_cons_self, rfl, rfl⟩
  | ifElse id keyword condition body otherwise =>
    cases otherwise <;> exact ⟨_, List.mem_cons_self, rfl, rfl⟩
  | ret id keyword value => cases value <;> exact ⟨_, List.mem_cons_self, rfl, rfl⟩
  | varDecl id name initial => cases initial <;> exact ⟨_, List.mem_cons_self, rfl, rfl⟩
  | _ => exact ⟨_, List.mem_cons_self, rfl, rfl⟩

end ClassScript
