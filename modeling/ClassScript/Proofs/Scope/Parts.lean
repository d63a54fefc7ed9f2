import ClassScript.Proofs.Scope.Sites

/-!
# The parts of code

The expressions that an expression or a statement is made of and the statements that a statement
chooses among, as far as they are run in the scope of the whole. What a walk lists for a part it
lists for the whole as well, so that what is known of the uses, nodes and places of code is known of
its parts.
-/

namespace ClassScript

open Scope

/-! ### Parts -/

/-- The expressions whose values an expression is made of. -/
def Expr.operands : Expr → List Expr
  | .literal .. | .var _ | .self .. | .super .. | .lambda _ => []
  | .group _ _ inner => [inner]
  | .list _ _ elements => elements
  | .assign _ _ value => [value]
  | .unary _ _ right => [right]
  | .binary _ left _ right | .logical _ left _ right => [left, right]
  | .call _ callee _ args named => callee :: (args ++ named.map NamedArg.value)
  | .get _ object _ => [object]
  | .set _ object _ value => [object, value]

/-- The expressions that a statement evaluates in the scope that it is executed in. -/
def Stmt.operands : Stmt → List Expr
  | .function .. | .block _ => []
  | .expr _ value => [value]
  | .varDecl _ _ initial => initial.toList
  | .classDecl _ _ supers _ => supers.map .var
  | .ifElse _ _ test _ _ => [test]
  | .whileLoop _ _ test _ => [test]
  | .forIn _ _ _ iterable _ => [iterable]
  | .ret _ _ value => value.toList

/-- The statements that a statement may execute in the scope that it is executed in. -/
def Stmt.branches : Stmt → List Stmt
  | .ifElse _ _ _ body otherwise => .block body :: otherwise.toList
  | .whileLoop _ _ _ body => [.block body]
  | _ => []

/-- A statement that declares a name in the scope that it is executed in. -/
def Stmt.Declares : Stmt → Prop
  | .varDecl .. | .function .. | .classDecl .. => True
  | _ => False

/-- The scopes around the expressions of a statement: the name of a variable or of a class is
pending there. -/
def Stmt.operandScopes (scopes : List Region) : Stmt → List Region
  | .varDecl _ name _ | .classDecl _ name _ _ => pendIn name.lexeme scopes
  | _ => scopes

/-! ### Walks over expressions in a row -/

section Rows

variable (scopes : List Region) (around : Option Enclosing)

/-- The uses in a row of expressions are those in each one. -/
theorem Expr.usesOf_eq (es : List Expr) :
    Expr.usesOf scopes es = es.flatMap (Expr.uses scopes) := by
  induction es with
  | nil => rfl
  | cons e rest ih => rw [Expr.usesOf, ih, List.flatMap_cons]

/-- So are the uses in named arguments. -/
theorem NamedArg.usesOf_eq (args : List NamedArg) :
    NamedArg.usesOf scopes args = (args.map NamedArg.value).flatMap (Expr.uses scopes) := by
  induction args with
  | nil => rfl
  | cons a rest ih =>
    obtain ⟨name, value⟩ := a
    rw [NamedArg.usesOf, ih, List.map_cons, List.flatMap_cons]

/-- A variable that is used as an expression is one use. -/
theorem NameUse.flatMap_uses (uses : List NameUse) :
    (uses.map Expr.var).flatMap (Expr.uses scopes) = uses.map (NameUse.use scopes) := by
  rw [List.flatMap_map, List.map_eq_flatMap]
  rfl

/-- The places in a row of expressions are those in each one. -/
theorem Expr.sitesOf_eq (es : List Expr) :
    Expr.sitesOf around es = es.flatMap (Expr.sites around) := by
  induction es with
  | nil => rfl
  | cons e rest ih => rw [Expr.sitesOf, ih, List.flatMap_cons]

/-- So are the places in named arguments. -/
theorem NamedArg.sitesOf_eq (args : List NamedArg) :
    NamedArg.sitesOf around args = (args.map NamedArg.value).flatMap (Expr.sites around) := by
  induction args with
  | nil => rfl
  | cons a rest ih =>
    obtain ⟨name, value⟩ := a
    rw [NamedArg.sitesOf, ih, List.map_cons, List.flatMap_cons]

/-- A variable that is used as an expression is one place. -/
theorem NameUse.flatMap_sites (uses : List NameUse) :
    (uses.map Expr.var).flatMap (Expr.sites around) =
      uses.map fun use => ⟨.expr (.var use), around⟩ := by
  rw [List.flatMap_map, List.map_eq_flatMap]
  rfl

end Rows

/-! ### The parts of expressions -/

namespace Expr

variable {e e' : Expr} (h : e' ∈ e.operands)

include h

/-- The uses in an operand are uses in the expression. -/
theorem uses_operand (scopes : List Region) : e'.uses scopes ⊆ e.uses scopes := by
  have hall : e.operands.flatMap (Expr.uses scopes) ⊆ e.uses scopes := by
    cases e <;> simp [operands, Expr.uses, Expr.usesOf_eq, NamedArg.usesOf_eq]
  exact fun u hu => hall (List.mem_flatMap_of_mem h hu)

/-- The places in an operand are places in the expression. -/
theorem sites_operand (around : Option Enclosing) : e'.sites around ⊆ e.sites around := by
  have hall : e.operands.flatMap (Expr.sites around) ⊆ e.sites around := by
    cases e <;> simp [operands, Expr.sites, Expr.sitesOf_eq, NamedArg.sitesOf_eq]
  exact fun s hs => hall (List.mem_flatMap_of_mem h hs)

/-- The nodes of an operand are nodes of the expression. -/
theorem nodes_operand : e'.nodes everywhere ⊆ e.nodes everywhere := by
  rw [← e'.nodes_sites none, ← e.nodes_sites none]
  exact List.map_subset _ (sites_operand h none)

end Expr

/-! ### The parts of statements -/

namespace Stmt

variable {s s' : Stmt} {e : Expr}

/-- The uses in an operand are uses in the statement, in the scopes of its operands. -/
theorem uses_operand (h : e ∈ s.operands) (scopes : List Region) :
    e.uses (s.operandScopes scopes) ⊆ s.uses scopes := by
  have hall : s.operands.flatMap (Expr.uses (s.operandScopes scopes)) ⊆ s.uses scopes := by
    -- An operand that may be missing is looked at both ways.
    cases s with
    | varDecl id name initial =>
      cases initial <;> simp [operands, operandScopes, Stmt.uses]
    | ret id keyword value => cases value <;> simp [operands, operandScopes, Stmt.uses]
    | ifElse id keyword test body otherwise =>
      cases otherwise <;> simp [operands, operandScopes, Stmt.uses]
    | classDecl id name supers methods =>
      simp [operands, operandScopes, Stmt.uses, NameUse.flatMap_uses]
    | _ => simp [operands, operandScopes, Stmt.uses]
  exact fun u hu => hall (List.mem_flatMap_of_mem h hu)

/-- The places in an operand are places in the statement. -/
theorem sites_operand (h : e ∈ s.operands) (around : Option Enclosing) :
    e.sites around ⊆ s.sites around := by
  have hall : s.operands.flatMap (Expr.sites around) ⊆ s.sites around := by
    cases s with
    | varDecl id name initial => cases initial <;> simp [operands, Stmt.sites]
    | ret id keyword value => cases value <;> simp [operands, Stmt.sites]
    | ifElse id keyword test body otherwise => cases otherwise <;> simp [operands, Stmt.sites]
    | classDecl id name supers methods =>
      simp [operands, Stmt.sites, NameUse.flatMap_sites]
    | _ => simp [operands, Stmt.sites]
  exact fun u hu => hall (List.mem_flatMap_of_mem h hu)

/-- The nodes of an operand are nodes of the statement. -/
theorem nodes_operand (h : e ∈ s.operands) : e.nodes everywhere ⊆ s.nodes everywhere := by
  rw [← e.nodes_sites none, ← s.nodes_sites none]
  exact List.map_subset _ (sites_operand h none)

/-- The uses in a branch are uses in the statement. -/
theorem uses_branch (h : s' ∈ s.branches) (scopes : List Region) :
    s'.uses scopes ⊆ s.uses scopes := by
  have hall : s.branches.flatMap (Stmt.uses scopes) ⊆ s.uses scopes := by
    cases s with
    | ifElse id keyword test body otherwise => cases otherwise <;> simp [branches, Stmt.uses]
    | _ => simp [branches, Stmt.uses]
  exact fun u hu => hall (List.mem_flatMap_of_mem h hu)

/-- The places in a branch are places in the statement. -/
theorem sites_branch (h : s' ∈ s.branches) (around : Option Enclosing) :
    s'.sites around ⊆ s.sites around := by
  have hall : s.branches.flatMap (Stmt.sites around) ⊆ s.sites around := by
    cases s with
    | ifElse id keyword test body otherwise => cases otherwise <;> simp [branches, Stmt.sites]
    | _ => simp [branches, Stmt.sites]
  exact fun u hu => hall (List.mem_flatMap_of_mem h hu)

/-- The nodes of a branch are nodes of the statement. -/
theorem nodes_branch (h : s' ∈ s.branches) : s'.nodes everywhere ⊆ s.nodes everywhere := by
  rw [← s'.nodes_sites none, ← s.nodes_sites none]
  exact List.map_subset _ (sites_branch h none)

end Stmt

end ClassScript
