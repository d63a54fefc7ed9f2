import Mathlib.Data.List.Perm.Subperm
import ClassScript.Scope.Origin
import ClassScript.Syntax.Nodes

/-!
# The uses of names in a program

A walk over a program that lists the uses of names, each with the scopes around it and with what
every one of these scopes declares up to there. A pass over programs that deals with names can be
compared with this list, and two passes that fit it fit each other.

A name is pending from the start of its declaration to its end: in the initial value of a
variable, in the defaults of a named function and among the superclasses of a class.
-/

namespace ClassScript

namespace Scope

/-- A scope as it is seen from a place inside. -/
structure Region where
  /-- The syntax that opens the scope. -/
  origin : Origin
  /-- The names whose declarations lie in front of the place. -/
  declared : List String := []
  /-- The names whose declarations lie around the place. -/
  pending : List String := []

namespace Region

/-- Whether a scope declares a name, at least pending. -/
def knows (r : Region) (name : String) : Bool :=
  r.declared.contains name || r.pending.contains name

/-- A scope behind a declaration. -/
def declare (r : Region) (name : String) : Region := { r with declared := name :: r.declared }

/-- A scope inside a declaration. -/
def pend (r : Region) (name : String) : Region := { r with pending := name :: r.pending }

/-- Behind a declaration a scope knows its name and what it knew before. -/
@[simp]
theorem knows_declare (r : Region) (name x : String) :
    (r.declare name).knows x = (x == name || r.knows x) := by
  simp only [knows, declare, List.contains_cons, Bool.or_assoc]

/-- So it does inside a declaration. -/
@[simp]
theorem knows_pend (r : Region) (name x : String) :
    (r.pend name).knows x = (x == name || r.knows x) := by
  simp only [knows, pend, List.contains_cons]
  rw [← Bool.or_assoc, Bool.or_comm (r.declared.contains x), Bool.or_assoc]

/-- The scope of a function, with its parameters. -/
def call (id : NodeId) (params : List Param) : Region :=
  ⟨.call id, params.map (·.name.lexeme), []⟩

/-- The scope of a block. -/
def block (id : NodeId) : Region := ⟨.block id, [], []⟩

/-- The scope of a loop over elements, with its variable. -/
def loop (id : NodeId) (name : Token) : Region := ⟨.loop id, [name.lexeme], []⟩

/-- The scope of a class with its superclasses. -/
def supers (id : NodeId) : Region := ⟨.supers id, ["super"], []⟩

/-- The scope of a class with the receiver of its methods. -/
def receiver (id : NodeId) : Region := ⟨.receiver id, ["self"], []⟩

end Region

/-- The scopes around a place behind a declaration. There is no scope around globals. -/
def declareIn (name : String) : List Region → List Region
  | [] => []
  | r :: rest => r.declare name :: rest

/-- The scopes around a place inside a declaration. -/
def pendIn (name : String) : List Region → List Region
  | [] => []
  | r :: rest => r.pend name :: rest

/-- The scopes around the methods of a class. -/
def methodScopes (id : NodeId) (scopes : List Region) : List Region :=
  .receiver id :: .supers id :: scopes

/-- How a name is used. -/
inductive Role where
  /-- A variable is read. -/
  | read
  /-- A variable is given a value. -/
  | write
  /-- The receiver. -/
  | self
  /-- The superclasses. -/
  | super
deriving DecidableEq

/-- One use of a name. -/
structure Use where
  /-- How the name is used. -/
  role : Role
  /-- The node. -/
  id : NodeId
  /-- The name. -/
  name : String
  /-- The scopes around the use, the innermost first. -/
  scopes : List Region

namespace Use

/-- The number of scopes between a use and the scope that declares the name. -/
def distance? (u : Use) : Option Nat := u.scopes.findIdx? (·.knows u.name)

/-- The scope that declares the name. -/
def region? (u : Use) : Option Region := u.scopes.find? (·.knows u.name)

end Use

end Scope

open Scope

/-- The use of a variable. -/
def NameUse.use (scopes : List Region) (u : NameUse) : Use := ⟨.read, u.id, u.name.lexeme, scopes⟩

/-- The scopes around the statement behind a statement. -/
def Stmt.after (scopes : List Region) : Stmt → List Region
  | .varDecl _ name _ | .classDecl _ name _ _ => declareIn name.lexeme scopes
  | .function _ fn => declareIn fn.token.lexeme scopes
  | .ifElse _ _ _ _ (some otherwise) => otherwise.after scopes
  | _ => scopes

/-- A statement declares nothing, one name, or what the other branch of a conditional declares. -/
theorem Stmt.after_cases (scopes : List Region) (s : Stmt) :
    s.after scopes = scopes ∨ ∃ name, s.after scopes = declareIn name scopes := by
  fun_induction s.after scopes with
  | case1 => exact .inr ⟨_, rfl⟩
  | case2 => exact .inr ⟨_, rfl⟩
  | case3 => exact .inr ⟨_, rfl⟩
  | case4 _ _ _ _ _ ih => exact ih
  | case5 => exact .inl rfl

/-- The scopes around the place behind statements in a row. -/
def Stmt.afterAll (scopes : List Region) (body : List Stmt) : List Region :=
  body.foldl Stmt.after scopes

/-- Only the innermost scope gets names. -/
theorem Stmt.tail_after (scopes : List Region) (s : Stmt) : (s.after scopes).tail = scopes.tail := by
  rcases s.after_cases scopes with h | ⟨name, h⟩
  · rw [h]
  · rw [h]
    cases scopes <;> rfl

/-- Statements declare names in the innermost scope only. -/
theorem Stmt.tail_afterAll (scopes : List Region) (body : List Stmt) :
    (Stmt.afterAll scopes body).tail = scopes.tail := by
  induction body generalizing scopes with
  | nil => rfl
  | cons s rest ih => exact (ih _).trans (s.tail_after scopes)

/-- Globals are declared in no scope. -/
theorem Stmt.after_nil (s : Stmt) : s.after [] = [] := by
  rcases s.after_cases [] with h | ⟨name, h⟩
  · exact h
  · exact h

/-- There is no scope around a program. -/
theorem Stmt.afterAll_nil (program : List Stmt) : Stmt.afterAll [] program = [] := by
  induction program with
  | nil => rfl
  | cons s rest ih =>
    unfold Stmt.afterAll at *
    rw [List.foldl_cons, s.after_nil, ih]

mutual

/-- The uses in an expression. -/
def Expr.uses (scopes : List Region) : Expr → List Use
  | .assign id name value => value.uses scopes ++ [⟨.write, id, name.lexeme, scopes⟩]
  | .binary _ left _ right | .logical _ left _ right => left.uses scopes ++ right.uses scopes
  | .call _ callee _ args named =>
    callee.uses scopes ++ Expr.usesOf scopes args ++ NamedArg.usesOf scopes named
  | .get _ object _ => object.uses scopes
  | .set _ object _ value => value.uses scopes ++ object.uses scopes
  | .group _ _ inner => inner.uses scopes
  | .literal .. => []
  | .list _ _ elements => Expr.usesOf scopes elements
  | .self id _ => [⟨.self, id, "self", scopes⟩]
  | .super id _ _ => [⟨.super, id, "super", scopes⟩]
  | .unary _ _ right => right.uses scopes
  | .var use => [use.use scopes]
  | .lambda fn => fn.uses scopes scopes

/-- The uses in expressions in a row. -/
def Expr.usesOf (scopes : List Region) : List Expr → List Use
  | [] => []
  | e :: rest => e.uses scopes ++ Expr.usesOf scopes rest

/-- The uses in named arguments. -/
def NamedArg.usesOf (scopes : List Region) : List NamedArg → List Use
  | [] => []
  | ⟨_, value⟩ :: rest => value.uses scopes ++ NamedArg.usesOf scopes rest

/-- The uses in the parameters' defaults. -/
def Param.usesOf (scopes : List Region) : List Param → List Use
  | [] => []
  | ⟨_, _, none, _⟩ :: rest => Param.usesOf scopes rest
  | ⟨_, _, some value, _⟩ :: rest => value.uses scopes ++ Param.usesOf scopes rest

/-- The uses in a function: in its defaults, and in its body inside the function's own scope. -/
def Lambda.uses (outer scopes : List Region) : Lambda → List Use
  | ⟨id, _, _, params, body⟩ =>
    Param.usesOf outer params ++ Stmt.usesOf (.call id params :: scopes) body

/-- The uses in methods in a row. -/
def Lambda.usesOf (scopes : List Region) : List Lambda → List Use
  | [] => []
  | fn :: rest => fn.uses scopes scopes ++ Lambda.usesOf scopes rest

/-- The uses in a block. -/
def Block.uses (scopes : List Region) : Block → List Use
  | ⟨id, _, body⟩ => Stmt.usesOf (.block id :: scopes) body

/-- The uses in a statement. -/
def Stmt.uses (scopes : List Region) : Stmt → List Use
  | .block b => b.uses scopes
  | .classDecl id name supers methods =>
    supers.map (NameUse.use (pendIn name.lexeme scopes)) ++
      Lambda.usesOf (methodScopes id (declareIn name.lexeme scopes)) methods
  | .expr _ value => value.uses scopes
  | .function _ fn =>
    fn.uses (pendIn fn.token.lexeme scopes) (declareIn fn.token.lexeme scopes)
  | .ifElse _ _ condition body none => condition.uses scopes ++ body.uses scopes
  | .ifElse _ _ condition body (some otherwise) =>
    condition.uses scopes ++ body.uses scopes ++ otherwise.uses scopes
  | .forIn id _ name iterable body => iterable.uses scopes ++ body.uses (.loop id name :: scopes)
  | .ret _ _ none => []
  | .ret _ _ (some value) => value.uses scopes
  | .varDecl _ _ none => []
  | .varDecl _ name (some value) => value.uses (pendIn name.lexeme scopes)
  | .whileLoop _ _ condition body => condition.uses scopes ++ body.uses scopes

/-- The uses in statements in a row. -/
def Stmt.usesOf (scopes : List Region) : List Stmt → List Use
  | [] => []
  | s :: rest => s.uses scopes ++ Stmt.usesOf (s.after scopes) rest

end

/-! ### The nodes of uses -/

/-- A walk that goes into every node. -/
abbrev everywhere : Node → Bool := fun _ => true

/-- The walk that goes everywhere lists a node and what is below it. -/
@[simp]
theorem Node.visit_everywhere (n : Node) (below : List Node) :
    n.visit everywhere below = n :: below :=
  rfl

/-- The uses belong to different nodes of some syntax. -/
def Scope.Within (us : List Use) (ns : List Node) : Prop :=
  (us.map Use.id).Subperm (ns.map Node.id)

namespace Scope.Within

variable {us us₁ us₂ : List Use} {ns ns₁ ns₂ : List Node}

/-- No uses lie within any nodes. -/
theorem nil (ns : List Node) : Within [] ns := List.nil_subperm

/-- Uses within two parts lie within both together. -/
theorem append (h₁ : Within us₁ ns₁) (h₂ : Within us₂ ns₂) :
    Within (us₁ ++ us₂) (ns₁ ++ ns₂) := by
  unfold Within
  rw [List.map_append, List.map_append]
  exact List.Subperm.append h₁ h₂

/-- The order in which the uses are listed may differ from that of the nodes. -/
theorem append_swap (h₁ : Within us₁ ns₁) (h₂ : Within us₂ ns₂) :
    Within (us₁ ++ us₂) (ns₂ ++ ns₁) := by
  have h := h₁.append h₂
  have swap : ((ns₁ ++ ns₂).map Node.id).Perm ((ns₂ ++ ns₁).map Node.id) :=
    List.perm_append_comm.map _
  exact List.Subperm.trans h swap.subperm

/-- A node above may belong to no use. -/
theorem cons (n : Node) (h : Within us ns) : Within us (n :: ns) :=
  List.Subperm.cons_right _ h

/-- A node above may belong to a use that is listed last. -/
theorem snoc {n : Node} {u : Use} (hu : u.id = n.id) (h : Within us ns) :
    Within (us ++ [u]) (n :: ns) := by
  have hs : Within [u] [n] := by
    unfold Within
    rw [List.map_singleton, List.map_singleton, hu]
  exact h.append_swap hs

/-- Uses of different nodes have different identities. -/
theorem nodup (h : Within us ns) (hn : (ns.map Node.id).Nodup) : (us.map Use.id).Nodup := by
  obtain ⟨l, hl, hsub⟩ := h
  exact hl.nodup_iff.1 (hsub.nodup hn)

/-- A use within nodes belongs to one of them. -/
theorem mem (h : Within us ns) {u : Use} (hu : u ∈ us) : u.id ∈ ns.map Node.id :=
  List.Subperm.subset h (List.mem_map_of_mem hu)

end Scope.Within

/-- The uses of variables in a row lie within their nodes. -/
theorem NameUse.within (scopes : List Region) (uses : List NameUse) :
    Within (uses.map (NameUse.use scopes))
      (uses.flatMap fun u => Node.visit everywhere (.expr (.var u)) []) := by
  induction uses with
  | nil => exact .nil _
  | cons u rest ih => exact .append (.snoc rfl (.nil [])) ih

mutual

/-- The uses in an expression belong to different nodes of it. -/
theorem Expr.within (scopes : List Region) :
    ∀ e : Expr, Within (e.uses scopes) (e.nodes everywhere)
  | .assign _ _ value => .snoc rfl (value.within scopes)
  | .binary _ left _ right | .logical _ left _ right =>
    .cons _ (.append (left.within scopes) (right.within scopes))
  | .call _ callee _ args named =>
    .cons _ (.append (.append (callee.within scopes) (Expr.withinOf scopes args))
      (NamedArg.withinOf scopes named))
  | .get _ object _ => .cons _ (object.within scopes)
  | .set _ object _ value => .cons _ (.append_swap (value.within scopes) (object.within scopes))
  | .group _ _ inner => .cons _ (inner.within scopes)
  | .literal .. => .nil _
  | .list _ _ elements => .cons _ (Expr.withinOf scopes elements)
  | .self .. => .snoc rfl (.nil [])
  | .super .. => .snoc rfl (.nil [])
  | .unary _ _ right => .cons _ (right.within scopes)
  | .var _ => .snoc rfl (.nil [])
  | .lambda fn => fn.within scopes scopes

/-- The uses in expressions in a row lie within their nodes. -/
theorem Expr.withinOf (scopes : List Region) :
    ∀ es : List Expr, Within (Expr.usesOf scopes es) (Expr.nodesOf everywhere es)
  | [] => .nil _
  | e :: rest => .append (e.within scopes) (Expr.withinOf scopes rest)

/-- So do those in named arguments. -/
theorem NamedArg.withinOf (scopes : List Region) :
    ∀ args : List NamedArg, Within (NamedArg.usesOf scopes args) (NamedArg.nodesOf everywhere args)
  | [] => .nil _
  | ⟨_, value⟩ :: rest => .append (value.within scopes) (NamedArg.withinOf scopes rest)

/-- So do those in the defaults of parameters. -/
theorem Param.withinOf (scopes : List Region) :
    ∀ params : List Param, Within (Param.usesOf scopes params) (Param.nodesOf everywhere params)
  | [] => .nil _
  | ⟨_, _, none, _⟩ :: rest => Param.withinOf scopes rest
  | ⟨_, _, some value, _⟩ :: rest => .append (value.within scopes) (Param.withinOf scopes rest)

/-- So do those in a function. -/
theorem Lambda.within (outer scopes : List Region) :
    ∀ fn : Lambda, Within (fn.uses outer scopes) (fn.nodes everywhere)
  | ⟨_, _, _, params, body⟩ =>
    .cons _ (.append (Param.withinOf outer params) (Stmt.withinOf _ body))

/-- So do those in methods. -/
theorem Lambda.withinOf (scopes : List Region) :
    ∀ fns : List Lambda, Within (Lambda.usesOf scopes fns) (Lambda.nodesOf everywhere fns)
  | [] => .nil _
  | fn :: rest => .append (fn.within scopes scopes) (Lambda.withinOf scopes rest)

/-- So do those in a block. -/
theorem Block.within (scopes : List Region) :
    ∀ b : Block, Within (b.uses scopes) (b.nodes everywhere)
  | ⟨_, _, body⟩ => .cons _ (Stmt.withinOf _ body)

/-- The uses in a statement belong to different nodes of it. -/
theorem Stmt.within (scopes : List Region) :
    ∀ s : Stmt, Within (s.uses scopes) (s.nodes everywhere)
  | .block b => b.within scopes
  | .classDecl _ _ supers methods =>
    .cons _ (.append (NameUse.within _ supers) (Lambda.withinOf _ methods))
  | .expr _ value => .cons _ (value.within scopes)
  | .function _ fn => .cons _ (fn.within _ _)
  | .ifElse _ _ condition body none =>
    .cons _ (.append (condition.within scopes) (body.within scopes))
  | .ifElse _ _ condition body (some otherwise) =>
    .cons _ (.append (.append (condition.within scopes) (body.within scopes))
      (otherwise.within scopes))
  | .forIn _ _ _ iterable body => .cons _ (.append (iterable.within scopes) (body.within _))
  | .ret _ _ none => .nil _
  | .ret _ _ (some value) => .cons _ (value.within scopes)
  | .varDecl _ _ none => .nil _
  | .varDecl _ _ (some value) => .cons _ (value.within _)
  | .whileLoop _ _ condition body =>
    .cons _ (.append (condition.within scopes) (body.within scopes))

/-- The uses in statements in a row belong to different nodes of them. -/
theorem Stmt.withinOf (scopes : List Region) :
    ∀ body : List Stmt, Within (Stmt.usesOf scopes body) (Stmt.nodesOf everywhere body)
  | [] => .nil _
  | s :: rest => .append (s.within scopes) (Stmt.withinOf _ rest)

end

end ClassScript
